import Mathlib.Tactic

set_option autoImplicit false

/-! # Reading a stream in pieces

A stream of bytes carries items one after the other. A framer looks at what has arrived and not been
used: it takes an item off the front, or waits for more, or finds that the stream is malformed. What
it has decided stays decided when more arrives. Then the items that are read do not depend on where
the stream was cut into chunks.
-/

namespace PyLib

variable {β μ : Type}

/-- What a framer does with the bytes it has. -/
inductive Framed (β μ : Type) where
  | item (m : μ) (rest : List β)
  | wait
  | malformed

/-- A framer takes something off the bytes with every item, and bytes that follow do not change
what it finds. -/
structure Framer (β μ : Type) where
  next : List β → Framed β μ
  shorter : ∀ {buffer m rest}, next buffer = .item m rest → rest.length < buffer.length
  item_append : ∀ {buffer m rest}, next buffer = .item m rest → ∀ more,
    next (buffer ++ more) = .item m (rest ++ more)
  malformed_append : ∀ {buffer}, next buffer = .malformed → ∀ more,
    next (buffer ++ more) = .malformed

namespace Framer

variable (F : Framer β μ)

/-- The items of a buffer, and the bytes that are left waiting; `none` where it is malformed. -/
inductive Reads : List β → List μ → Option (List β) → Prop
  | wait {buffer : List β} (h : F.next buffer = .wait) : Reads buffer [] (some buffer)
  | malformed {buffer : List β} (h : F.next buffer = .malformed) : Reads buffer [] none
  | item {buffer rest : List β} {m : μ} {ms : List μ} {left : Option (List β)}
      (h : F.next buffer = .item m rest) (hrest : Reads rest ms left) : Reads buffer (m :: ms) left

/-- What is read when chunks arrive one after the other behind a buffer. -/
inductive Fed : List β → List (List β) → List μ → Option (List β) → Prop
  | ended (buffer : List β) : Fed buffer [] [] (some buffer)
  | malformed {buffer chunk : List β} {chunks : List (List β)} {ms : List μ}
      (h : F.Reads (buffer ++ chunk) ms none) : Fed buffer (chunk :: chunks) ms none
  | chunk {buffer chunk rest : List β} {chunks : List (List β)} {ms later : List μ}
      {left : Option (List β)} (h : F.Reads (buffer ++ chunk) ms (some rest))
      (hrest : Fed rest chunks later left) : Fed buffer (chunk :: chunks) (ms ++ later) left

variable {F} {buffer more : List β} {ms ms' : List μ} {left left' : Option (List β)}

/-- Every buffer is read to its end. -/
theorem exists_reads (F : Framer β μ) (buffer : List β) : ∃ ms left, F.Reads buffer ms left := by
  induction hlength : buffer.length using Nat.strong_induction_on generalizing buffer with
  | _ n ih =>
      cases hnext : F.next buffer with
      | item m rest =>
          obtain ⟨ms, left, hrest⟩ := ih rest.length (hlength ▸ F.shorter hnext) rest rfl
          exact ⟨m :: ms, left, .item hnext hrest⟩
      | wait => exact ⟨[], some buffer, .wait hnext⟩
      | malformed => exact ⟨[], none, .malformed hnext⟩

theorem Reads.unique (h : F.Reads buffer ms left) (h' : F.Reads buffer ms' left') :
    ms' = ms ∧ left' = left := by
  induction h generalizing ms' left' with
  | wait hnext =>
      cases h' with
      | wait _ => exact ⟨rfl, rfl⟩
      | malformed hnext' => cases hnext.symm.trans hnext'
      | item hnext' _ => cases hnext.symm.trans hnext'
  | malformed hnext =>
      cases h' with
      | wait hnext' => cases hnext.symm.trans hnext'
      | malformed _ => exact ⟨rfl, rfl⟩
      | item hnext' _ => cases hnext.symm.trans hnext'
  | item hnext _ ih =>
      cases h' with
      | wait hnext' => cases hnext.symm.trans hnext'
      | malformed hnext' => cases hnext.symm.trans hnext'
      | item hnext' hrest' =>
          obtain ⟨rfl, rfl⟩ := Framed.item.inj (hnext.symm.trans hnext')
          obtain ⟨rfl, rfl⟩ := ih hrest'
          exact ⟨rfl, rfl⟩

/-- What is left of a buffer waits for more. -/
theorem Reads.next_left {rest : List β} (h : F.Reads buffer ms (some rest)) :
    F.next rest = .wait := by
  generalize hleft : some rest = left at h
  induction h with
  | wait hnext =>
      obtain rfl := Option.some.inj hleft
      exact hnext
  | malformed _ => cases hleft
  | item _ _ ih => exact ih hleft

/-- A malformed stream stays malformed at the same place. -/
theorem Reads.append_malformed (h : F.Reads buffer ms none) (more : List β) :
    F.Reads (buffer ++ more) ms none := by
  generalize hleft : none = left at h
  induction h with
  | wait _ => cases hleft
  | malformed hnext => exact .malformed (F.malformed_append hnext more)
  | item hnext _ ih => exact .item (F.item_append hnext more) (ih hleft)

/-- Reading goes on with what was left. -/
theorem Reads.append {rest : List β} (h : F.Reads buffer ms (some rest))
    (hmore : F.Reads (rest ++ more) ms' left') : F.Reads (buffer ++ more) (ms ++ ms') left' := by
  generalize hleft : some rest = left at h
  induction h with
  | wait _ =>
      obtain rfl := Option.some.inj hleft
      exact hmore
  | malformed _ => cases hleft
  | item hnext _ ih => exact .item (F.item_append hnext more) (ih hleft)

/-- **Where a stream is cut makes no difference.** -/
theorem Fed.reads {chunks : List (List β)} (h : F.Fed buffer chunks ms left)
    (hwait : F.next buffer = .wait) : F.Reads (buffer ++ chunks.flatten) ms left := by
  induction h with
  | ended buffer =>
      rw [List.flatten_nil, List.append_nil]
      exact .wait hwait
  | @malformed buffer chunk chunks ms hreads =>
      rw [List.flatten_cons, ← List.append_assoc]
      exact hreads.append_malformed chunks.flatten
  | @chunk buffer chunk rest chunks ms later left hreads _ ih =>
      rw [List.flatten_cons, ← List.append_assoc]
      exact hreads.append (ih hreads.next_left)

end Framer

end PyLib
