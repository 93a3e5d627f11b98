import FlatpakBlackbox.Basic.Text
import FlatpakBlackbox.Json.Value

set_option autoImplicit false

/-! # The OCI registry

The fixture server of `oci_registry.py`: `Image.load` reads an OCI layout, `Registry.publish`
replaces the image of a name, and `Registry.response` answers a request. Requests are answered in
threads of their own while an image is being published. So the assignments of `publish` are events
one by one, and `response` takes the registry once for each time at which it reads it.
`hashlib.sha256` and `json.loads` are parameters.
-/

namespace FlatpakBlackbox.OciRegistry

open PyLib PyException

variable {Bytes : Type}

/-! ## Images -/

/-- An OCI layout: its path, what `load_json` gives for `index.json`, and the files of
`blobs/sha256`. -/
structure Layout (Bytes : Type) where
  path : String
  index : Except PyException Value
  blobs : List (String × Bytes)
  names : ∀ file ∈ blobs, file.1 ≠ "" ∧ '/' ∉ file.1.toList

/-- `Image.record`. -/
structure Record where
  digest : String
  mediaType : String
  os : String
  architecture : String
  annotations : List (String × String)
  labels : List (String × String)

def Record.toValue (record : Record) : Value := .dict [
  ("Tags", .list [.str "latest"]), ("Digest", .str record.digest),
  ("MediaType", .str record.mediaType), ("OS", .str record.os),
  ("Architecture", .str record.architecture),
  ("Annotations", .dict (record.annotations.map fun e => (e.1, .str e.2))),
  ("Labels", .dict (record.labels.map fun e => (e.1, .str e.2)))]

/-- `Image`. -/
structure Image (Bytes : Type) where
  digest : String
  blobs : Dict String Bytes
  record : Record

/-- `data[key]` of an object. -/
def item (data : List (String × Value)) (key : String) : Except PyException Value :=
  match data.lookup key with
  | some value => .ok value
  | none => .error (keyError key)

/-- `d[key]`. -/
def subscript {α : Type} (d : Dict String α) (key : String) : Except PyException α :=
  match d.get? key with
  | some a => .ok a
  | none => .error (keyError key)

section Load

variable (sha256 : Bytes → String) (loads : Bytes → Except PyException Value)

/-- The digest of a blob. -/
def digestOf (data : Bytes) : String := "sha256:" ++ sha256 data

/-- The loop of `Image.load` over the files. -/
def loadBlobs (layout : Layout Bytes) : Except PyException (Dict String Bytes) := do
  let blobs ← layout.blobs.mapM fun (name, data) => do
    raiseIf (sha256 data ≠ name)
      (valueError s!"OCI fixture checksum mismatch: {layout.path}/blobs/sha256/{name}")
    return ("sha256:" ++ name, data)
  return Dict.ofList blobs

/-- The record of an image, from its manifest and the configuration that the manifest names. -/
def loadRecord (digest : String) (blobs : Dict String Bytes) (data : Bytes) :
    Except PyException Record := do
  let manifest ← objectMap (← loads data) "OCI manifest"
  let configDescriptor ← objectMap (← item manifest "config") "OCI config descriptor"
  let configDigest ← string false (← item configDescriptor "digest") "OCI config digest"
  let config ← objectMap (← loads (← subscript blobs configDigest)) "OCI config"
  let configuration ← objectMap ((config.lookup "config").getD (.dict [])) "OCI configuration"
  let os ← string false (← item config "os") "OCI OS"
  let architecture ← string false (← item config "architecture") "OCI architecture"
  let annotations ← stringMap false ((manifest.lookup "annotations").getD (.dict []))
    "OCI annotations"
  let labels ← stringMap false ((configuration.lookup "Labels").getD (.dict [])) "OCI labels"
  return ⟨digest, "application/vnd.oci.image.manifest.v1+json", os, architecture,
    annotations, labels⟩

/-- `Image.load(layout)`. -/
def Image.load (layout : Layout Bytes) : Except PyException (Image Bytes) := do
  let index ← objectMap (← layout.index) "OCI index"
  let manifests ← array (← item index "manifests") "OCI manifests"
  let [first] := manifests
    | .error (valueError "registry fixture requires one image per layout")
  let descriptor ← objectMap first "OCI manifest descriptor"
  let digest ← string false (← item descriptor "digest") "OCI manifest digest"
  let blobs ← loadBlobs sha256 layout
  let data ← subscript blobs digest
  let record ← loadRecord loads digest blobs data
  return ⟨digest, blobs, record⟩

end Load

theorem subscript_eq_ok {α : Type} {d : Dict String α} {key : String} {a : α} :
    subscript d key = .ok a ↔ d.get? key = some a := by
  unfold subscript
  cases d.get? key with
  | none => exact ⟨nofun, nofun⟩
  | some b =>
      exact ⟨fun h => congrArg some (Except.ok.inj h),
        fun h => congrArg Except.ok (Option.some.inj h)⟩

/-- What holds of an image that was loaded: its manifest is one of its blobs, and every blob stands
under its digest. -/
structure Loaded (sha256 : Bytes → String) (image : Image Bytes) : Prop where
  manifest : ∃ data, image.blobs.get? image.digest = some data
  checked : ∀ key data, image.blobs.get? key = some data → key = digestOf sha256 data
  segment : ∀ key data, image.blobs.get? key = some data → key ≠ "" ∧ '/' ∉ key.toList
  record : image.record.digest = image.digest

section Load

variable {sha256 : Bytes → String} {loads : Bytes → Except PyException Value}

/-- Every blob that was loaded is a file under its own digest. -/
theorem loadBlobs_spec {layout : Layout Bytes} {blobs : Dict String Bytes}
    (h : loadBlobs sha256 layout = .ok blobs) {key : String} {data : Bytes}
    (hkey : blobs.get? key = some data) :
    key = digestOf sha256 data ∧ key ≠ "" ∧ '/' ∉ key.toList := by
  obtain ⟨entries, hentries, h⟩ := bind_eq_ok.mp h
  obtain rfl := Except.ok.inj h
  rw [Dict.get?_ofList] at hkey
  have hmem : (key, data) ∈ entries := by
    obtain ⟨l₁, l₂, hl, -⟩ := List.lookup_eq_some_iff.mp hkey
    exact List.mem_reverse.mp (hl ▸ List.mem_append_right l₁ List.mem_cons_self)
  obtain ⟨⟨name, bytes⟩, hfile, hentry⟩ := exists_of_mem_mapM hentries hmem
  obtain ⟨_, hcheck, hentry⟩ := bind_eq_ok.mp hentry
  obtain ⟨rfl, rfl⟩ := Prod.mk.inj (Except.ok.inj hentry)
  have hname : sha256 bytes = name := not_not.mp (raiseIf_eq_ok.mp hcheck)
  obtain ⟨-, hslash⟩ := layout.names _ hfile
  refine ⟨congrArg _ hname.symm, ?_, ?_⟩
  · intro hempty
    have := congrArg String.length hempty
    simp at this
  · rw [String.toList_append, List.mem_append, not_or]
    exact ⟨by decide, hslash⟩

theorem loadRecord_digest {digest : String} {blobs : Dict String Bytes} {data : Bytes}
    {record : Record}
    (h : loadRecord loads digest blobs data = .ok record) : record.digest = digest := by
  simp only [loadRecord, bind_eq_ok] at h
  obtain ⟨_, -, _, -, _, -, _, -, _, -, _, -, _, -, _, -, _, -, _, -, _, -, _, -, _, -, _,
    -, _, -, _, -,
    h⟩ := h
  rw [← Except.ok.inj h]

theorem Image.load_loaded {layout : Layout Bytes} {image : Image Bytes}
    (h : Image.load sha256 loads layout = .ok image) : Loaded sha256 image := by
  unfold Image.load at h
  obtain ⟨_, -, h⟩ := bind_eq_ok.mp h
  obtain ⟨_, -, h⟩ := bind_eq_ok.mp h
  obtain ⟨_, -, h⟩ := bind_eq_ok.mp h
  obtain ⟨_, -, h⟩ := bind_eq_ok.mp h
  split at h
  · obtain ⟨_, -, h⟩ := bind_eq_ok.mp h
    obtain ⟨_, -, h⟩ := bind_eq_ok.mp h
    obtain ⟨digest, -, h⟩ := bind_eq_ok.mp h
    obtain ⟨blobs, hblobs, h⟩ := bind_eq_ok.mp h
    obtain ⟨data, hdata, h⟩ := bind_eq_ok.mp h
    obtain ⟨record, hrecord, h⟩ := bind_eq_ok.mp h
    obtain rfl := Except.ok.inj h
    exact
      { manifest := ⟨data, subscript_eq_ok.mp hdata⟩
        checked := fun _ _ hkey => (loadBlobs_spec hblobs hkey).1
        segment := fun _ _ hkey => (loadBlobs_spec hblobs hkey).2
        record := loadRecord_digest hrecord }
  · cases h

end Load

/-! ## The registry -/

/-- `Registry`. -/
structure Registry (Bytes : Type) where
  images : Dict String (Image Bytes)
  requests : List String
  signatures : Dict String Bytes
  blobs : Dict String (Dict String Bytes)
  serial : Nat

namespace Registry

/-- `Registry(images)`. -/
def new (images : Dict String (Image Bytes)) : Registry Bytes :=
  ⟨images, [], Dict.empty, images.mapValues Image.blobs, 0⟩

/-- `self.blobs.get(name, {})`. -/
def held (r : Registry Bytes) (name : String) : Dict String Bytes := r.blobs.getD name Dict.empty

end Registry

/-- What happens to a registry, one assignment at a time. -/
inductive Event (Bytes : Type) where
  /-- `self.blobs.setdefault(name, {})`. -/
  | retain (name : String)
  /-- `.update(image.blobs)`. -/
  | update (name : String) (image : Image Bytes)
  /-- `self.images[name] = image`. -/
  | assign (name : String) (image : Image Bytes)
  /-- `self.serial += 1`. -/
  | count
  /-- `self.signatures[path] = payload`, by a scenario. -/
  | sign (path : String) (payload : Bytes)
  /-- `self.requests.append(path)`, by a request. -/
  | request (path : String)

/-- The event belongs to `publish`. -/
def Event.publishing : Event Bytes → Bool
  | .retain _ | .update _ _ | .assign _ _ | .count => true
  | .sign _ _ | .request _ => false

/-- `publish(name, image)`. -/
def publish (name : String) (image : Image Bytes) : List (Event Bytes) :=
  [.retain name, .update name image, .assign name image, .count]

namespace Registry

def apply (r : Registry Bytes) : Event Bytes → Registry Bytes
  | .retain name => { r with blobs := r.blobs.set name (r.held name) }
  | .update name image => { r with blobs := r.blobs.set name ((r.held name).merge image.blobs) }
  | .assign name image => { r with images := r.images.set name image }
  | .count => { r with serial := r.serial + 1 }
  | .sign path payload => { r with signatures := r.signatures.set path payload }
  | .request path => { r with requests := r.requests ++ [path] }

/-- The registry after events. -/
def after (r : Registry Bytes) (events : List (Event Bytes)) : Registry Bytes :=
  events.foldl apply r

end Registry

/-! ## Responses -/

/-- The body of a response: bytes, `json.dumps(value).encode()`, or a literal. -/
inductive Body (Bytes : Type) where
  | bytes (data : Bytes)
  | json (value : Value)
  | literal (text : String)

/-- What `response` returns. -/
structure Response (Bytes : Type) where
  status : Nat
  body : Body Bytes
  mediaType : String

/-- `sorted(self.images.items())`. -/
def sortedItems (images : Dict String (Image Bytes)) : List (String × Image Bytes) :=
  (sorted images.keys).filterMap fun name => (images.get? name).map fun image => (name, image)

/-- The body of an index. -/
def indexBody (items : List (String × Image Bytes)) : Value := .dict [
  ("Registry", .str "/"),
  ("Results", .list (items.map fun (name, image) => .dict [
    ("Name", .str name), ("Images", .list [image.record.toValue]), ("Lists", .list [])]))]

/-- `path.strip("/").split("/")`. -/
def parts (path : String) : List String :=
  splitBy (.ofList ((path.toList.dropWhile (· == '/')).rdropWhile (· == '/'))) '/'

/-- `path in {"/index/static", "/index/dynamic"}`. -/
def IsIndex (path : String) : Prop := path = "/index/static" ∨ path = "/index/dynamic"

instance : DecidablePred IsIndex := fun path =>
  inferInstanceAs (Decidable (path = "/index/static" ∨ path = "/index/dynamic"))

def notFound : Response Bytes := ⟨404, .literal "not found", "text/plain"⟩

/-- The end of `response`. -/
def rootResponse (path : String) : Response Bytes :=
  if path = "/v2" ∨ path = "/v2/" then ⟨200, .literal "{}", "application/json"⟩ else notFound

/-- `response(path)`, of the unquoted path. The registry is read up to three times: at first for
`path in self.signatures`, then for `self.signatures[path]`, `self.images.items()`,
`name in self.images` or `self.blobs.get(name, {})`, at last for `self.images[name]` or
`self.blobs[name]`. -/
def response (first second third : Registry Bytes) (path : String) :
    Except PyException (Response Bytes) :=
  if path ∈ first.signatures.keys then do
    return ⟨200, .bytes (← subscript second.signatures path), "application/octet-stream"⟩
  else if IsIndex path then
    .ok ⟨200, .json (indexBody (sortedItems second.images)), "application/json"⟩
  else
    match parts path with
    | ["v2", name, kind, digest] =>
        if kind = "manifests" ∧ name ∈ second.images.keys then do
          let image ← subscript third.images name
          if digest = "latest" ∨ digest = image.digest then
            return ⟨200, .bytes (← subscript image.blobs image.digest), image.record.mediaType⟩
          else return rootResponse path
        else if kind = "blobs" ∧ digest ∈ (second.held name).keys then do
          let blobs ← subscript third.blobs name
          return ⟨200, .bytes (← subscript blobs digest), "application/octet-stream"⟩
        else .ok (rootResponse path)
    | _ => .ok (rootResponse path)

/-! ## What an event changes -/

namespace Registry

variable {r r' r'' : Registry Bytes} {name : String}

theorem held_set (r : Registry Bytes) (name other : String) (blobs : Dict String Bytes) :
    held { r with blobs := r.blobs.set name blobs } other =
      if name = other then blobs else r.held other :=
  Dict.getD_set r.blobs name other blobs Dict.empty

theorem held_new {images : Dict String (Image Bytes)} {image : Image Bytes}
    (h : images.get? name = some image) : (new images).held name = image.blobs := by
  unfold held new Dict.getD
  rw [Dict.get?_mapValues, h]
  rfl

/-- The registry keeps what it has: names, blobs and signatures. -/
structure Grows (r r' : Registry Bytes) : Prop where
  images : ∀ name ∈ r.images.keys, name ∈ r'.images.keys
  blobs : ∀ name, ∀ key ∈ (r.held name).keys, key ∈ (r'.held name).keys
  signatures : ∀ path ∈ r.signatures.keys, path ∈ r'.signatures.keys

theorem Grows.refl (r : Registry Bytes) : Grows r r := ⟨fun _ h => h, fun _ _ h => h, fun _ h => h⟩

theorem Grows.trans (h : Grows r r') (h' : Grows r' r'') : Grows r r'' where
  images name hname := h'.images name (h.images name hname)
  blobs name key hkey := h'.blobs name key (h.blobs name key hkey)
  signatures path hpath := h'.signatures path (h.signatures path hpath)

theorem mem_keys_merge {d e : Dict String Bytes} {key : String} :
    key ∈ (d.merge e).keys ↔ key ∈ e.keys ∨ key ∈ d.keys := by
  simp only [Dict.mem_keys_iff, Dict.get?_merge, Option.or_eq_some_iff]
  constructor
  · rintro ⟨data, h | ⟨-, h⟩⟩
    · exact .inl ⟨data, h⟩
    · exact .inr ⟨data, h⟩
  · rintro (⟨data, h⟩ | ⟨data, h⟩)
    · exact ⟨data, .inl h⟩
    · cases he : e.get? key with
      | none => exact ⟨data, .inr ⟨rfl, h⟩⟩
      | some other => exact ⟨other, .inl rfl⟩

/-- No event takes anything away. -/
theorem grows_apply (r : Registry Bytes) (event : Event Bytes) : Grows r (r.apply event) := by
  cases event with
  | retain name =>
      refine ⟨fun _ h => h, fun other key hkey => ?_, fun _ h => h⟩
      show key ∈ (held { r with blobs := r.blobs.set name (r.held name) } other).keys
      rw [held_set]
      split
      · next hname => exact hname ▸ hkey
      · exact hkey
  | update name image =>
      refine ⟨fun _ h => h, fun other key hkey => ?_, fun _ h => h⟩
      show key ∈ (held
        { r with blobs := r.blobs.set name ((r.held name).merge image.blobs) } other).keys
      rw [held_set]
      split
      · next hname => exact mem_keys_merge.mpr (.inr (hname ▸ hkey))
      · exact hkey
  | assign name image =>
      exact ⟨fun other hother => (Dict.mem_keys_set ..).mpr (.inl hother),
        fun _ _ h => h, fun _ h => h⟩
  | count => exact ⟨fun _ h => h, fun _ _ h => h, fun _ h => h⟩
  | sign path payload =>
      exact ⟨fun _ h => h, fun _ _ h => h, fun other hother =>
        (Dict.mem_keys_set ..).mpr (.inl hother)⟩
  | request path => exact ⟨fun _ h => h, fun _ _ h => h, fun _ h => h⟩

theorem grows_after (r : Registry Bytes) (events : List (Event Bytes)) :
    Grows r (r.after events) := by
  induction events generalizing r with
  | nil => exact .refl r
  | cons event events ih => exact (grows_apply r event).trans (ih (r.apply event))

theorem after_concat (r : Registry Bytes) (events : List (Event Bytes)) (event : Event Bytes) :
    r.after (events ++ [event]) = (r.after events).apply event := by
  unfold after
  rw [List.foldl_append]
  rfl

end Registry

/-- The image that the event assigns to the name. -/
def Event.assigned (name : String) : Event Bytes → Option (Image Bytes)
  | .assign other image => if other = name then some image else none
  | _ => none

/-- The image of a name is the one that was assigned last. -/
theorem Registry.images_after (r : Registry Bytes) (events : List (Event Bytes)) (name : String) :
    (r.after events).images.get? name =
      ((events.filterMap (Event.assigned name)).getLast?).or (r.images.get? name) := by
  induction events using List.reverseRecOn with
  | nil => rfl
  | append_singleton events event ih =>
      rw [after_concat, List.filterMap_append, List.filterMap_cons, List.filterMap_nil]
      cases event with
      | assign other image =>
          show ((r.after events).images.set other image).get? name = _
          rw [Dict.get?_set]
          by_cases hname : other = name
          · rw [if_pos hname]
            simp [Event.assigned, hname]
          · rw [if_neg hname, ih]
            simp [Event.assigned, hname]
      | _ =>
          show (r.after events).images.get? name = _
          rw [ih]
          simp [Event.assigned]

/-- The blobs are checked: whatever is held stands under its digest. -/
def Registry.Checked (sha256 : Bytes → String) (r : Registry Bytes) : Prop :=
  ∀ name key data, (r.held name).get? key = some data → key = digestOf sha256 data

theorem Registry.checked_apply {sha256 : Bytes → String} {r : Registry Bytes} (h : r.Checked sha256)
    {event : Event Bytes} (himage : ∀ name image, event = .update name image →
    Loaded sha256 image) :
    (r.apply event).Checked sha256 := by
  cases event with
  | retain name =>
      intro other key data hkey
      change (held { r with blobs := r.blobs.set name (r.held name) } other).get? key = _ at hkey
      rw [held_set] at hkey
      split at hkey
      · exact h name key data hkey
      · exact h other key data hkey
  | update name image =>
      intro other key data hkey
      change (held { r with blobs := r.blobs.set name ((r.held name).merge image.blobs) }
        other).get? key =
        _ at hkey
      rw [held_set] at hkey
      split at hkey
      · rw [Dict.get?_merge, Option.or_eq_some_iff] at hkey
        rcases hkey with hkey | ⟨-, hkey⟩
        · exact (himage name image rfl).checked key data hkey
        · exact h name key data hkey
      · exact h other key data hkey
  | _ => exact h

/-! ## Requests -/

/-- A signature stands neither under `/v2` nor under `/index`. -/
def Outside (path : String) : Prop :=
  startsWith path "/v2/" = false ∧ startsWith path "/index/" = false

/-- The path `/v2/name/kind/reference`. -/
def v2Path (name kind reference : String) : String :=
  "/v2/" ++ name ++ "/" ++ kind ++ "/" ++ reference

/-- A part of a path. -/
def Segment (part : String) : Prop := part ≠ "" ∧ '/' ∉ part.toList

/-- The parts of such a path. -/
theorem parts_v2Path {name kind reference : String} (hname : '/' ∉ name.toList)
    (hkind : '/' ∉ kind.toList) (hreference : Segment reference) :
    parts (v2Path name kind reference) = ["v2", name, kind, reference] := by
  obtain ⟨hne, hslash⟩ := hreference
  have hstrip : String.ofList (((v2Path name kind reference).toList.dropWhile (· == '/')).rdropWhile
      (· == '/')) = "v2" ++ "/" ++ (name ++ "/" ++ (kind ++ "/" ++ reference)) := by
    have hlist : (v2Path name kind reference).toList = '/' :: ("v2" ++ "/" ++ (name ++ "/" ++
        (kind ++ "/" ++ reference))).toList := by
      simp [v2Path, String.toList_append]
    rw [hlist, List.dropWhile_cons_of_pos (by rfl)]
    have hfirst : (("v2" ++ "/" ++ (name ++ "/" ++ (kind ++ "/" ++ reference))).toList).dropWhile
        (· == '/') = ("v2" ++ "/" ++ (name ++ "/" ++ (kind ++ "/" ++ reference))).toList := by
      rw [String.toList_append, String.toList_append]
      rfl
    rw [hfirst]
    obtain ⟨front, last, hlast⟩ : ∃ front last, reference.toList = front ++ [last] := by
      rcases List.eq_nil_or_concat reference.toList with hnil | ⟨front, last, h⟩
      · exact absurd (String.toList_eq_nil_iff.mp hnil) hne
      · exact ⟨front, last, by rw [h, List.concat_eq_append]⟩
    have hback : (last == '/') = false := by
      rw [beq_eq_false_iff_ne]
      rintro rfl
      exact hslash (hlast ▸ List.mem_append_right front List.mem_cons_self)
    have hend : ("v2" ++ "/" ++ (name ++ "/" ++ (kind ++ "/" ++ reference))).toList =
        ("v2" ++ "/" ++ (name ++ "/" ++ (kind ++ "/"))).toList ++ front ++ [last] := by
      simp [String.toList_append, hlast]
    rw [hend, List.rdropWhile_concat_neg _ _ _ (by simp [hback]), ← hend, String.ofList_toList]
  unfold parts
  rw [hstrip, splitBy_append rfl (by decide), splitBy_append rfl hname, splitBy_append rfl hkind,
    splitBy_eq_singleton hslash]

theorem not_outside_v2Path (name kind reference : String) :
    ¬ Outside (v2Path name kind reference) := by
  rintro ⟨h, -⟩
  have hstarts : startsWith (v2Path name kind reference) "/v2/" = true := by
    unfold v2Path
    simp only [String.append_assoc]
    exact startsWith_append _ _
  rw [hstarts] at h
  cases h

theorem not_outside_index {path : String} (h : IsIndex path) : ¬ Outside path := by
  rintro ⟨-, hindex⟩
  rcases h with rfl | rfl
  · exact absurd hindex (by decide)
  · exact absurd hindex (by decide)

section Responses

variable {first second third : Registry Bytes} {path name reference : String}

theorem response_index (hpath : path ∉ first.signatures.keys) (hindex : IsIndex path) :
    response first second third path =
      .ok ⟨200, .json (indexBody (sortedItems second.images)), "application/json"⟩ := by
  unfold response
  rw [if_neg hpath, if_pos hindex]

/-- A path with four parts is neither an index nor the root. -/
theorem not_index_of_parts {kind : String} (hparts : parts path = ["v2", name, kind, reference]) :
    ¬ IsIndex path ∧ rootResponse path = (notFound : Response Bytes) := by
  refine ⟨?_, if_neg ?_⟩
  · rintro (rfl | rfl)
    · exact absurd hparts (by rw [show parts "/index/static" = ["index", "static"] by decide]; simp)
    · exact absurd hparts (by
        rw [show parts "/index/dynamic" = ["index", "dynamic"] by decide]; simp)
  · rintro (rfl | rfl)
    · exact absurd hparts (by rw [show parts "/v2" = ["v2"] by decide]; simp)
    · exact absurd hparts (by rw [show parts "/v2/" = ["v2"] by decide]; simp)

theorem response_manifests (hpath : path ∉ first.signatures.keys)
    (hparts : parts path = ["v2", name, "manifests", reference]) :
    (name ∉ second.images.keys → response first second third path = .ok notFound) ∧
    ∀ image data, name ∈ second.images.keys → third.images.get? name = some image →
      image.blobs.get? image.digest = some data → response first second third path = .ok
        (if reference = "latest" ∨ reference = image.digest then
          ⟨200, .bytes data, image.record.mediaType⟩ else notFound) := by
  obtain ⟨hindex, hroot⟩ : ¬ IsIndex path ∧ rootResponse path = (notFound : Response Bytes) :=
    not_index_of_parts hparts
  unfold response
  rw [if_neg hpath, if_neg hindex]
  simp only [hparts]
  refine ⟨fun hname => ?_, fun image data hname himage hdata => ?_⟩
  · rw [if_neg fun h => hname h.2, if_neg (by simp), hroot]
  · rw [if_pos ⟨trivial, hname⟩, subscript_eq_ok.mpr himage, hroot]
    show (if reference = "latest" ∨ reference = image.digest then _ else _) = _
    rw [subscript_eq_ok.mpr hdata]
    split <;> rfl

theorem response_blobs (hpath : path ∉ first.signatures.keys)
    (hparts : parts path = ["v2", name, "blobs", reference]) :
    (reference ∉ (second.held name).keys → response first second third path = .ok notFound) ∧
    ∀ data, reference ∈ (second.held name).keys → (third.held name).get? reference = some data →
      response first second third path = .ok ⟨200, .bytes data, "application/octet-stream"⟩ := by
  obtain ⟨hindex, hroot⟩ : ¬ IsIndex path ∧ rootResponse path = (notFound : Response Bytes) :=
    not_index_of_parts hparts
  unfold response
  rw [if_neg hpath, if_neg hindex]
  simp only [hparts]
  refine ⟨fun hreference => ?_, fun data hreference hdata => ?_⟩
  · rw [if_neg (by simp), if_neg fun h => hreference h.2, hroot]
  · rw [if_neg (by simp), if_pos ⟨trivial, hreference⟩]
    unfold Registry.held Dict.getD at hdata
    cases hblobs : third.blobs.get? name with
    | none =>
        rw [hblobs] at hdata
        cases hdata
    | some blobs =>
        rw [hblobs, Option.getD_some] at hdata
        rw [subscript_eq_ok.mpr hblobs]
        show (subscript blobs reference >>= _) = _
        rw [subscript_eq_ok.mpr hdata]
        rfl

end Responses

theorem mem_sortedItems {images : Dict String (Image Bytes)} {name : String} {image : Image Bytes} :
    (name, image) ∈ sortedItems images ↔ images.get? name = some image := by
  unfold sortedItems
  rw [List.mem_filterMap]
  constructor
  · rintro ⟨other, -, h⟩
    obtain ⟨found, hfound, heq⟩ := Option.map_eq_some_iff.mp h
    obtain ⟨rfl, rfl⟩ := Prod.mk.inj heq
    exact hfound
  · intro h
    refine ⟨name, mem_sorted.mpr ((Dict.mem_keys_iff _ _).mpr ⟨image, h⟩), ?_⟩
    rw [h, Option.map_some]

theorem sortedItems_lt (images : Dict String (Image Bytes)) :
    (sortedItems images).Pairwise fun a b => a.1 < b.1 := by
  unfold sortedItems
  rw [List.pairwise_filterMap]
  refine (sorted_lt images.keys_nodup).imp fun {a b} hlt => ?_
  rintro _ ha _ hb
  obtain ⟨_, -, rfl⟩ := Option.map_eq_some_iff.mp ha
  obtain ⟨_, -, rfl⟩ := Option.map_eq_some_iff.mp hb
  exact hlt

end FlatpakBlackbox.OciRegistry
