import FlatpakBlackbox.Scenario.Registry

set_option autoImplicit false

/-! # Fetching while images are published

A reader of the registry takes an index, then a manifest, then blobs, and an image may be published
in between. In a `Run` the assignments of any number of publications, of signatures and of requests
interleave; a `Request` reads the registry at three times of the run. Blobs are never lost and every
digest is answered by its own bytes. But `response` knows the manifest of the current image only: a
manifest stays fetchable by its digest exactly until another image takes its name.
-/

namespace FlatpakBlackbox.OciRegistry

open PyLib PyException

variable {Bytes : Type} {sha256 : Bytes → String} {loads : Bytes → Except PyException Value}

/-! ## Runs -/

/-- A run: the images of the registry at first, the calls of `publish` one after another, and what
happens. -/
structure Run (sha256 : Bytes → String) (loads : Bytes → Except PyException Value) where
  images : Dict String (Image Bytes)
  calls : List (String × Image Bytes)
  events : List (Event Bytes)
  loaded : ∀ call ∈ images.entries ++ calls, ∃ layout, Image.load sha256 loads layout = .ok call.2
  names : ∀ call ∈ images.entries ++ calls, '/' ∉ call.1.toList
  publishes : events.filter Event.publishing <+: calls.flatMap fun call => publish call.1 call.2
  signatures : ∀ path payload, .sign path payload ∈ events → Outside path

/-- A request, and the times at which it reads the registry. -/
structure Request where
  path : String
  first : Nat
  second : Nat
  third : Nat
  order : first ≤ second ∧ second ≤ third

namespace Run

variable (run : Run sha256 loads)

/-- The registry at a time. -/
def registry (time : Nat) : Registry Bytes := (Registry.new run.images).after (run.events.take time)

/-- The image that was assigned to the name last. -/
def lastAssigned (time : Nat) (name : String) : Option (Image Bytes) :=
  (((run.events.take time).filterMap (Event.assigned name)).getLast?).or (run.images.get? name)

/-- The image was assigned to the name. -/
def Assigned (time : Nat) (name : String) (image : Image Bytes) : Prop :=
  run.images.get? name = some image ∨ .assign name image ∈ run.events.take time

/-- What the request is answered. The parameter is `unquote(urlsplit(path).path)`. -/
def answer (target : String → String) (request : Request) : Except PyException (Response Bytes) :=
  response (run.registry request.first) (run.registry request.second) (run.registry request.third)
    (target request.path)

theorem images_registry (time : Nat) (name : String) :
    (run.registry time).images.get? name = run.lastAssigned time name :=
  Registry.images_after _ _ name

theorem grows_registry {time time' : Nat} (h : time ≤ time') :
    Registry.Grows (run.registry time) (run.registry time') := by
  have hsplit := List.take_append_drop time (run.events.take time')
  rw [List.take_take, min_eq_left h] at hsplit
  unfold registry
  rw [← hsplit, Registry.after, Registry.after, List.foldl_append]
  exact Registry.grows_after _ _

/-! ### What was published -/

/-- In `publish` the blobs come before the image. -/
theorem update_mem_of_assign {calls : List (String × Image Bytes)} {events : List (Event Bytes)}
    {name : String} {image : Image Bytes}
    (h : events ++ [.assign name image] <+: calls.flatMap fun call => publish call.1 call.2) :
    .update name image ∈ events := by
  induction calls generalizing events with
  | nil => exact absurd (List.prefix_nil.mp h) (by simp)
  | cons call calls ih =>
      rw [List.flatMap_cons, publish] at h
      rcases events with _ | ⟨_, _ | ⟨_, _ | ⟨_, _ | ⟨_, events⟩⟩⟩⟩
      · simp at h
      · simp at h
      · simp only [List.cons_append, List.nil_append, List.cons_prefix_cons] at h
        obtain ⟨rfl, rfl, heq, -⟩ := h
        cases heq
        exact List.mem_cons_of_mem _ List.mem_cons_self
      · simp at h
      · simp only [List.cons_append, List.nil_append, List.cons_prefix_cons] at h
        have hrest := ih h.2.2.2.2
        simp only [List.mem_cons, hrest, or_true]

variable {run}

/-- Only the calls assign and update. -/
theorem call_of_mem {name : String} {image : Image Bytes}
    (h : .assign name image ∈ run.events ∨ .update name image ∈ run.events) :
    (name, image) ∈ run.calls := by
  have hcall : ∀ event : Event Bytes, event ∈ run.events → event.publishing = true →
      ∃ call ∈ run.calls, event ∈ publish call.1 call.2 := by
    intro event hevent hpublishing
    exact List.mem_flatMap.mp (run.publishes.subset (List.mem_filter.mpr ⟨hevent, hpublishing⟩))
  rcases h with h | h
  · obtain ⟨call, hmem, hevent⟩ := hcall _ h rfl
    simp only [publish, List.mem_cons, List.not_mem_nil, reduceCtorEq, Event.assign.injEq, false_or,
      or_false] at hevent
    rwa [hevent.1, hevent.2]
  · obtain ⟨call, hmem, hevent⟩ := hcall _ h rfl
    simp only [publish, List.mem_cons, List.not_mem_nil, reduceCtorEq, Event.update.injEq, false_or,
      or_false] at hevent
    rwa [hevent.1, hevent.2]

variable {time time' : Nat} {name : String} {image : Image Bytes}

theorem Assigned.mem (h : run.Assigned time name image) : (name, image) ∈ run.images.entries ++
    run.calls := by
  rcases h with h | h
  · exact List.mem_append_left _ (Dict.mem_entries_of_get? h)
  · exact List.mem_append_right _ (call_of_mem (.inl (List.mem_of_mem_take h)))

theorem Assigned.loaded (h : run.Assigned time name image) : Loaded sha256 image := by
  obtain ⟨layout, hload⟩ := run.loaded _ h.mem
  exact Image.load_loaded hload

theorem Assigned.mono (h : run.Assigned time name image) (htime : time ≤ time') :
    run.Assigned time' name image :=
  h.imp id fun h => (List.take_prefix_take_left htime).subset h

theorem assigned_of_lastAssigned (h : run.lastAssigned time name = some image) :
    run.Assigned time name image := by
  rcases Option.or_eq_some_iff.mp h with hlast | ⟨-, hfirst⟩
  · obtain ⟨event, hevent, hassigned⟩ := List.mem_filterMap.mp (List.mem_of_getLast? hlast)
    unfold Event.assigned at hassigned
    split at hassigned
    · split at hassigned
      · next other image' hname =>
          obtain rfl := Option.some.inj hassigned
          exact .inr (hname ▸ hevent)
      · cases hassigned
    · cases hassigned
  · exact .inl hfirst

/-- **Nothing is lost.** The blobs of every image that was assigned are held. -/
theorem Assigned.held (h : run.Assigned time name image) {key : String}
    (hkey : key ∈ image.blobs.keys) :
    key ∈ ((run.registry time).held name).keys := by
  rcases h with h | h
  · refine (Registry.grows_after (Registry.new run.images) _).blobs name key ?_
    rwa [Registry.held_new h]
  · obtain ⟨before, after, hsplit⟩ := List.append_of_mem h
    have hprefix : before ++ [.assign name image] <+: run.events := by
      refine List.IsPrefix.trans ⟨after, ?_⟩ (List.take_prefix time run.events)
      rw [hsplit, List.append_assoc, List.singleton_append]
    have hupdate : .update name image ∈ before := by
      have hcalls := (List.IsPrefix.filter Event.publishing hprefix).trans run.publishes
      rw [List.filter_append] at hcalls
      exact List.mem_of_mem_filter (update_mem_of_assign hcalls)
    obtain ⟨first, rest, rfl⟩ := List.append_of_mem hupdate
    have hevents : run.events.take time =
        (first ++ [.update name image]) ++ (rest ++ .assign name image :: after) := by
      rw [hsplit]
      simp only [List.append_assoc, List.cons_append, List.nil_append]
    unfold registry
    rw [hevents, Registry.after, List.foldl_append]
    refine (Registry.grows_after _ _).blobs name key ?_
    show key ∈ (Registry.held ((Registry.new run.images).after (first ++ [.update name image]))
      name).keys
    rw [Registry.after_concat]
    show key ∈ (Registry.held { (Registry.new run.images).after first with blobs := _ } name).keys
    rw [Registry.held_set, if_pos rfl]
    exact Registry.mem_keys_merge.mpr (.inl hkey)

/-- **No blob stands under another digest.** -/
theorem checked_registry (time : Nat) : (run.registry time).Checked sha256 := by
  have hevents : ∀ events : List (Event Bytes), events <+: run.events →
      ((Registry.new run.images).after events).Checked sha256 := by
    intro events
    induction events using List.reverseRecOn with
    | nil =>
        intro _ name key data hkey
        cases himage : run.images.get? name with
        | none =>
            have hheld : (Registry.new run.images).held name = Dict.empty := by
              rw [Registry.held, Registry.new, Dict.getD, Dict.get?_mapValues, himage]
              rfl
            change ((Registry.new run.images).held name).get? key = _ at hkey
            rw [hheld] at hkey
            cases hkey
        | some image =>
            change ((Registry.new run.images).held name).get? key = _ at hkey
            rw [Registry.held_new himage] at hkey
            have hassigned : run.Assigned 0 name image := .inl himage
            exact hassigned.loaded.checked key data hkey
    | append_singleton events event ih =>
        intro hprefix
        rw [Registry.after_concat]
        refine Registry.checked_apply (ih ((List.prefix_append _ _).trans hprefix)) ?_
        rintro name image rfl
        have hmem := hprefix.subset (List.mem_append_right _ List.mem_cons_self)
        obtain ⟨layout, hload⟩ := run.loaded _ (List.mem_append_right _ (call_of_mem (.inr hmem)))
        exact Image.load_loaded hload
  exact hevents _ (List.take_prefix time run.events)

/-- No signature stands under `/v2` or `/index`. -/
theorem not_signed (run : Run sha256 loads) {path : String} (h : ¬ Outside path) (time : Nat) :
    path ∉ (run.registry time).signatures.keys := by
  have hevents : ∀ events : List (Event Bytes), events <+: run.events →
      path ∉ ((Registry.new run.images).after events).signatures.keys := by
    intro events
    induction events using List.reverseRecOn with
    | nil => exact fun _ hmem => nomatch hmem
    | append_singleton events event ih =>
        intro hprefix
        have hbefore := ih ((List.prefix_append _ _).trans hprefix)
        rw [Registry.after_concat]
        cases event with
        | sign other payload =>
            have hmem := hprefix.subset (List.mem_append_right _ List.mem_cons_self)
            have hother := run.signatures other payload hmem
            intro hsigned
            rcases (Dict.mem_keys_set ..).mp hsigned with hsigned | rfl
            · exact hbefore hsigned
            · exact h hother
        | _ => exact hbefore
  exact hevents _ (List.take_prefix time run.events)

/-! ## What a reader gets -/

variable (run : Run sha256 loads) (target : String → String)

/-- The request is answered with the bytes of the digest. -/
def Serves (request : Request) (digest : String) : Prop :=
  ∃ data mediaType, run.answer target request = .ok ⟨200, .bytes data, mediaType⟩ ∧
    digestOf sha256 data = digest

/-- The index lists an image with the digest under the name. -/
def Lists (body : Body Bytes) (name digest : String) : Prop :=
  ∃ value results result record, body = .json value ∧ value.list? "Results" = some results ∧
    result ∈ results ∧ result.str? "Name" = some name ∧ result.list? "Images" = some [record] ∧
    record.str? "Digest" = some digest

/-- The answer advertises the digest for the name: an index or a manifest. -/
def Advertises (request : Request) (name digest : String) : Prop :=
  (IsIndex (target request.path) ∧ ∃ response, run.answer target request = .ok response ∧
    response.status = 200 ∧ Lists response.body name digest) ∨
  ('/' ∉ name.toList ∧ ∃ reference, Segment reference ∧
    target request.path = v2Path name "manifests" reference ∧ run.Serves target request digest)

/-- What readers rely on, of the requests of a run. -/
structure Fetches (requests : List Request) : Prop where
  /-- Advertised digests are those of images that were assigned. -/
  advertised : ∀ request ∈ requests, ∀ name digest, run.Advertises target request name digest →
    ∃ image, run.Assigned request.third name image ∧ image.digest = digest
  /-- An advertised manifest stays fetchable. -/
  manifests : ∀ earlier ∈ requests, ∀ later ∈ requests, earlier.third ≤ later.first →
    ∀ name digest, run.Advertises target earlier name digest →
      target later.path = v2Path name "manifests" digest → run.Serves target later digest
  /-- The blobs of an advertised image stay fetchable. -/
  blobs : ∀ earlier ∈ requests, ∀ later ∈ requests, earlier.third ≤ later.first →
    ∀ name image, run.Advertises target earlier name image.digest →
      run.Assigned earlier.third name image → ∀ key ∈ image.blobs.keys,
        target later.path = v2Path name "blobs" key → run.Serves target later key
  /-- No digest is answered with other bytes. -/
  own : ∀ request ∈ requests, ∀ name kind digest, '/' ∉ name.toList → Segment digest →
    kind = "blobs" ∨ kind = "manifests" ∧ digest ≠ "latest" →
      target request.path = v2Path name kind digest → ∀ response,
        run.answer target request = .ok response → response.status = 200 →
          run.Serves target request digest
  /-- An index names the image that was assigned last to each name. -/
  index : ∀ request ∈ requests, IsIndex (target request.path) → ∃ items mediaType,
    run.answer target request = .ok ⟨200, .json (indexBody items), mediaType⟩ ∧
      items.Pairwise (fun a b => a.1 < b.1) ∧
        ∀ name image, (name, image) ∈ items ↔ run.lastAssigned request.second name = some image
  /-- So does `latest`. -/
  latest : ∀ request ∈ requests, ∀ name, '/' ∉ name.toList →
    target request.path = v2Path name "manifests" "latest" →
      (run.lastAssigned request.second name = none → run.answer target request = .ok notFound) ∧
        (run.lastAssigned request.second name ≠ none → ∃ image,
          run.lastAssigned request.third name = some image ∧
            run.Serves target request image.digest)

/-- Every manifest that is requested by an advertised digest is that of the current image. -/
def Timely (requests : List Request) : Prop :=
  ∀ earlier ∈ requests, ∀ later ∈ requests, earlier.third ≤ later.first →
    ∀ name digest, run.Advertises target earlier name digest →
      target later.path = v2Path name "manifests" digest →
        ∃ image, (run.registry later.third).images.get? name = some image ∧ image.digest = digest

variable {run target} {request : Request} {name reference : String}

theorem answer_index (hindex : IsIndex (target request.path)) : run.answer target request =
    .ok ⟨200, .json (indexBody (sortedItems (run.registry request.second).images)),
    "application/json"⟩ :=
  response_index (not_signed run (not_outside_index hindex) _) hindex

/-- A request for a manifest: the name is unknown, or its current image is served under its digest
and `latest` only. -/
theorem answer_manifests (run : Run sha256 loads) (hname : '/' ∉ name.toList)
    (hreference : Segment reference)
    (hpath : target request.path = v2Path name "manifests" reference) :
    (run.lastAssigned request.second name = none ∧ run.answer target request = .ok notFound) ∨
    run.lastAssigned request.second name ≠ none ∧ ∃ image data,
      run.lastAssigned request.third name = some image ∧ Loaded sha256 image ∧
      image.blobs.get? image.digest = some data ∧ run.answer target request = .ok
        (if reference = "latest" ∨ reference = image.digest then
          ⟨200, .bytes data, image.record.mediaType⟩ else notFound) := by
  have hspec := @response_manifests _ _ (run.registry request.second)
    (run.registry request.third) _ _ _
    (not_signed run (not_outside_v2Path name "manifests" reference) request.first)
    (parts_v2Path hname (by decide) hreference)
  rw [← hpath] at hspec
  cases hsecond : run.lastAssigned request.second name with
  | none =>
      refine .inl ⟨rfl, hspec.1 fun hmem => ?_⟩
      obtain ⟨image, himage⟩ := (Dict.mem_keys_iff _ _).mp hmem
      rw [images_registry, hsecond] at himage
      cases himage
  | some first =>
      have hmem : name ∈ (run.registry request.second).images.keys :=
        (Dict.mem_keys_iff _ _).mpr ⟨first, by rw [images_registry, hsecond]⟩
      obtain ⟨image, himage⟩ := (Dict.mem_keys_iff _ _).mp
        ((run.grows_registry request.order.2).images name hmem)
      have hlast : run.lastAssigned request.third name = some image :=
        (images_registry run _ _).symm.trans himage
      have hloaded := (assigned_of_lastAssigned hlast).loaded
      obtain ⟨data, hdata⟩ := hloaded.manifest
      exact .inr ⟨nofun, image, data, hlast, hloaded, hdata, hspec.2 image data hmem himage hdata⟩

/-- A request for a blob: what is held under the digest, if anything. -/
theorem answer_blobs (run : Run sha256 loads) (hname : '/' ∉ name.toList)
    (hreference : Segment reference)
    (hpath : target request.path = v2Path name "blobs" reference) :
    (reference ∉ ((run.registry request.second).held name).keys ∧
      run.answer target request = .ok notFound) ∨
    reference ∈ ((run.registry request.second).held name).keys ∧
      run.Serves target request reference := by
  have hspec := @response_blobs _ _ (run.registry request.second) (run.registry request.third) _ _ _
    (not_signed run (not_outside_v2Path name "blobs" reference) request.first)
    (parts_v2Path hname (by decide) hreference)
  rw [← hpath] at hspec
  by_cases hmem : reference ∈ ((run.registry request.second).held name).keys
  · obtain ⟨data, hdata⟩ := (Dict.mem_keys_iff _ _).mp
      ((run.grows_registry request.order.2).blobs name reference hmem)
    exact .inr ⟨hmem, data, _, hspec.2 data hmem hdata,
      (checked_registry request.third name reference data hdata).symm⟩
  · exact .inl ⟨hmem, hspec.1 hmem⟩

/-- A digest is not the tag. -/
theorem digestOf_ne_latest (data : Bytes) : digestOf sha256 data ≠ "latest" := by
  intro h
  have hhead : (digestOf sha256 data).toList.head? = some 's' := by
    rw [digestOf, String.toList_append]
    rfl
  rw [h] at hhead
  exact absurd hhead (by decide)

/-- A manifest is served by the digest of the current image, and by no other. -/
theorem serves_manifest_iff (hname : '/' ∉ name.toList) (hreference : Segment reference)
    (hne : reference ≠ "latest") (hpath : target request.path = v2Path name "manifests" reference)
    (hknown : run.lastAssigned request.second name ≠ none) :
    run.Serves target request reference ↔
      ∃ image, run.lastAssigned request.third name = some image ∧ image.digest = reference := by
  rcases answer_manifests run hname hreference hpath with ⟨hnone, -⟩ |
    ⟨-, image, data, himage, hloaded, hdata, hanswer⟩
  · exact absurd hnone hknown
  · constructor
    · rintro ⟨bytes, mediaType, hserved, -⟩
      refine ⟨image, himage, ?_⟩
      by_contra hother
      rw [hanswer, if_neg (by rintro (h | h); exacts [hne h, hother h.symm])] at hserved
      cases hserved
    · rintro ⟨current, hcurrent, rfl⟩
      obtain rfl := Option.some.inj (himage.symm.trans hcurrent)
      rw [if_pos (.inr rfl)] at hanswer
      exact ⟨data, _, hanswer, (hloaded.checked _ _ hdata).symm⟩

/-- What an index lists are images that were assigned. -/
theorem assigned_of_lists {items : List (String × Image Bytes)} {digest : String}
    (h : Lists (.json (indexBody items) : Body Bytes) name digest) :
    ∃ image, (name, image) ∈ items ∧ image.record.digest = digest := by
  obtain ⟨value, results, result, record, hvalue, hresults, hresult, hname, himages, hdigest⟩ := h
  obtain rfl := Body.json.inj hvalue
  obtain rfl := Option.some.inj hresults
  obtain ⟨⟨other, image⟩, hmem, rfl⟩ := List.mem_map.mp hresult
  obtain rfl := Option.some.inj hname
  obtain ⟨rfl, -⟩ := List.cons.inj (Option.some.inj himages)
  exact ⟨image, hmem, Option.some.inj hdigest⟩

theorem Advertises.assigned {digest : String} (h : run.Advertises target request name digest) :
    ∃ image, run.Assigned request.third name image ∧ image.digest = digest := by
  rcases h with ⟨hindex, response, hanswer, -, hlists⟩ | ⟨hname, reference, hreference,
    hpath, hserves⟩
  · rw [answer_index hindex] at hanswer
    obtain rfl := Except.ok.inj hanswer
    obtain ⟨image, hmem, hdigest⟩ := assigned_of_lists hlists
    have hlast : run.lastAssigned request.second name = some image :=
      (images_registry run _ _).symm.trans (mem_sortedItems.mp hmem)
    have hassigned := assigned_of_lastAssigned hlast
    exact ⟨image, hassigned.mono request.order.2, hassigned.loaded.record.symm.trans hdigest⟩
  · obtain ⟨bytes, mediaType, hanswer, hdigest⟩ := hserves
    rcases answer_manifests run hname hreference hpath with ⟨-, hnone⟩ |
      ⟨-, image, data, himage, hloaded, hdata, hsome⟩
    · rw [hnone] at hanswer
      cases hanswer
    · rw [hsome] at hanswer
      split at hanswer
      · cases hanswer
        exact ⟨image, assigned_of_lastAssigned himage,
          (hloaded.checked _ _ hdata).trans hdigest⟩
      · cases hanswer

/-- A name under which an image was assigned stays known. -/
theorem Assigned.known {time time' : Nat} {image : Image Bytes} (h : run.Assigned time name image)
    (htime : time ≤ time') : run.lastAssigned time' name ≠ none := by
  intro hnone
  obtain ⟨hlast, hfirst⟩ := Option.or_eq_none_iff.mp hnone
  rcases h.mono htime with h | h
  · rw [hfirst] at h
    cases h
  · have hmem : image ∈ (run.events.take time').filterMap (Event.assigned name) :=
      List.mem_filterMap.mpr ⟨_, h, if_pos rfl⟩
    rw [List.getLast?_eq_none_iff.mp hlast] at hmem
    cases hmem

/-- The digest of an image is a part of a path, and not `latest`. -/
theorem Assigned.digest {time : Nat} {image : Image Bytes} (h : run.Assigned time name image) :
    Segment image.digest ∧ image.digest ≠ "latest" := by
  obtain ⟨data, hdata⟩ := h.loaded.manifest
  refine ⟨h.loaded.segment _ _ hdata, ?_⟩
  rw [h.loaded.checked _ _ hdata]
  exact digestOf_ne_latest data

/-- **Advertised content stays fetchable, but for replaced manifests.** The requests of a run get
what readers rely on if and only if every manifest that is requested by an advertised digest is
that of the current image of its name. -/
theorem fetches_iff (run : Run sha256 loads) (target : String → String) (requests : List Request) :
    run.Fetches target requests ↔ run.Timely target requests := by
  constructor
  · intro h earlier hearlier later hlater htime name digest hadvertises hpath
    -- What was advertised is the digest of an image that was assigned to the name.
    obtain ⟨image, hassigned, rfl⟩ := hadvertises.assigned
    obtain ⟨hsegment, hlatest⟩ := hassigned.digest
    have hserves := h.manifests earlier hearlier later hlater htime name _ hadvertises hpath
    have hknown := hassigned.known (htime.trans later.order.1)
    rw [serves_manifest_iff (run.names _ hassigned.mem) hsegment hlatest hpath hknown] at hserves
    rwa [images_registry]
  · intro h
    refine
      { advertised := fun request _ name digest hadvertises => hadvertises.assigned
        manifests := ?_
        blobs := ?_
        own := ?_
        index := ?_
        latest := ?_ }
    · intro earlier hearlier later hlater htime name digest hadvertises hpath
      have hcurrent := h earlier hearlier later hlater htime name digest hadvertises hpath
      obtain ⟨image, hassigned, rfl⟩ := hadvertises.assigned
      obtain ⟨hsegment, hlatest⟩ := hassigned.digest
      have hknown := hassigned.known (htime.trans later.order.1)
      rw [serves_manifest_iff (run.names _ hassigned.mem) hsegment hlatest hpath hknown]
      rwa [images_registry] at hcurrent
    -- Blobs are never taken back, so a late request finds them.
    · intro earlier _ later _ htime name image _ hassigned key hkey hpath
      obtain ⟨data, hdata⟩ := (Dict.mem_keys_iff _ _).mp hkey
      have hsegment := hassigned.loaded.segment _ _ hdata
      rcases answer_blobs run (run.names _ hassigned.mem) hsegment hpath with
        ⟨hlost, -⟩ | ⟨-, hserves⟩
      · exact absurd ((hassigned.mono (htime.trans later.order.1)).held hkey) hlost
      · exact hserves
    · rintro request _ name kind digest hname hsegment hkind hpath response hanswer hstatus
      rcases hkind with rfl | ⟨rfl, hne⟩
      · rcases answer_blobs run hname hsegment hpath with ⟨-, hnone⟩ | ⟨-, hserves⟩
        · rw [hnone] at hanswer
          obtain rfl := Except.ok.inj hanswer
          cases hstatus
        · exact hserves
      · rcases answer_manifests run hname hsegment hpath with ⟨-, hnone⟩ |
          ⟨hknown, image, data, himage, -, -, hsome⟩
        · rw [hnone] at hanswer
          obtain rfl := Except.ok.inj hanswer
          cases hstatus
        · rw [serves_manifest_iff hname hsegment hne hpath hknown]
          refine ⟨image, himage, ?_⟩
          by_contra hother
          rw [hsome, if_neg (by rintro (h | h); exacts [hne h, hother h.symm])] at hanswer
          obtain rfl := Except.ok.inj hanswer
          cases hstatus
    · intro request _ hindex
      refine ⟨_, _, answer_index hindex, sortedItems_lt _, fun name image => ?_⟩
      rw [mem_sortedItems, images_registry]
    · intro request _ name hname hpath
      rcases answer_manifests run hname ⟨by decide, by decide⟩ hpath with ⟨hnone, hanswer⟩ |
        ⟨hknown, image, data, himage, hloaded, hdata, hanswer⟩
      · exact ⟨fun _ => hanswer, fun h => absurd hnone h⟩
      · refine ⟨fun h => absurd h hknown,
          fun _ => ⟨image, himage, data, image.record.mediaType, ?_, ?_⟩⟩
        · rw [hanswer, if_pos (.inl rfl)]
        · exact (hloaded.checked _ _ hdata).symm

end Run

/-! ### A reader that is overtaken -/

/-- A layout of a manifest and a configuration, where the digest of a text is the text. -/
def layoutOf (manifest : String) (h : manifest ≠ "" ∧ '/' ∉ manifest.toList) : Layout String where
  path := "/layouts/" ++ manifest
  index := .ok (.dict [("manifests", .list [.dict [("digest", .str ("sha256:" ++ manifest))]])])
  blobs := [("config", "config"), (manifest, manifest)]
  names := by
    simp only [List.forall_mem_cons]
    exact ⟨⟨by decide, by decide⟩, h, fun _ hmem => nomatch hmem⟩

/-- The JSON texts of these layouts. -/
def loadsOf (data : String) : Except PyException Value :=
  if data = "config" then .ok (.dict [("os", .str "linux"), ("architecture", .str "amd64")])
  else .ok (.dict [("config", .dict [("digest", .str "sha256:config")])])

/-- The image of such a layout. -/
def imageOf (manifest : String) : Image String where
  digest := "sha256:" ++ manifest
  blobs := Dict.ofList [("sha256:config", "config"), ("sha256:" ++ manifest, manifest)]
  record := ⟨"sha256:" ++ manifest, "application/vnd.oci.image.manifest.v1+json", "linux",
    "amd64", [], []⟩

/-- The image B is published for the name of the image A. -/
def staleRun : Run id loadsOf where
  images := ⟨[("application", imageOf "A")], by decide⟩
  calls := [("application", imageOf "B")]
  events := publish "application" (imageOf "B")
  loaded := by
    simp only [List.cons_append, List.nil_append, List.forall_mem_cons]
    exact ⟨⟨layoutOf "A" (by decide), rfl⟩, ⟨layoutOf "B" (by decide), rfl⟩,
      fun _ hmem => nomatch hmem⟩
  names := by
    simp only [List.cons_append, List.nil_append, List.forall_mem_cons]
    exact ⟨by decide, by decide, fun _ hmem => nomatch hmem⟩
  publishes := List.prefix_refl _
  signatures := by
    intro path payload hmem
    simp [publish] at hmem

/-- A reader takes the index, then B is published, then the reader takes the manifest of A. -/
theorem not_fetches_stale : ¬ staleRun.Fetches id
    [⟨"/index/static", 0, 0, 0, by decide⟩, ⟨"/v2/application/manifests/sha256:A", 4, 4, 4, by
    decide⟩] := by
  intro h
  have hadvertises : staleRun.Advertises id ⟨"/index/static", 0, 0, 0, by decide⟩
    "application" "sha256:A" :=
    .inl ⟨.inl rfl, _, rfl, rfl, _, _, _, _, rfl, rfl, List.mem_cons_self, rfl, rfl, rfl⟩
  obtain ⟨data, mediaType, hanswer, -⟩ := h.manifests _ List.mem_cons_self _
    (List.mem_cons_of_mem _ List.mem_cons_self) (by decide) _ _ hadvertises rfl
  have hnotFound : staleRun.answer id ⟨"/v2/application/manifests/sha256:A", 4, 4, 4, by decide⟩ =
      .ok notFound := rfl
  rw [hnotFound] at hanswer
  cases hanswer

end FlatpakBlackbox.OciRegistry
