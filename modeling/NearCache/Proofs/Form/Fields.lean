import Mathlib.Data.List.Nodup
import NearCache.Document.Shape
import NearCache.Proofs.Json.Values

/-!
# Records are read field by field

A `Slot` is a place in a record: its name, what may stand there, and whether it may be left out.
`Lists slots l`: the fields `l` fill the slots. They stand in any order, no slot is filled twice,
and whatever has another name is a plain tree.

`Shape.Follows.read`: a shape reads the fields to what the slots hold, wherever the record comes
from. It is proved by what is known after some fields were taken in, which depends on their names
only. A tag among the fields is taken out first (`splitTag_lists`), and the others fill the slots
that remain.
-/

namespace NearCache.Document

open Document.Tree (named)

/-! ## Plain trees -/

namespace Tree

theorem areWhole_of_forall {ts : List Tree} (h : ∀ t ∈ ts, t.isWhole = true) :
    areWhole ts = true := by
  induction ts with
  | nil => rfl
  | cons t ts ih =>
      simp only [List.mem_cons, forall_eq_or_imp] at h
      rw [areWhole, h.1, ih h.2]
      rfl

theorem areWholeFields_named {fs : List (String × Tree)} (h : ∀ f ∈ fs, f.2.isWhole = true) :
    areWholeFields (named fs) = true := by
  induction fs with
  | nil => rfl
  | cons f fs ih =>
      simp only [List.mem_cons, forall_eq_or_imp] at h
      show ((Tree.text f.1).isWhole && f.2.isWhole && areWholeFields (named fs)) = true
      rw [h.1, ih h.2]
      rfl

theorem Plain.isWhole {t : Tree} (h : t.Plain) : t.isWhole = true := by
  induction h with
  | list _ ih => rw [Tree.isWhole, areWhole_of_forall ih]
  | record _ ih => rw [Tree.isWhole, areWholeFields_named ih]
  | _ => rfl

/-- A plain tree is passed over. -/
theorem Plain.skip {t : Tree} (h : t.Plain) : t.skip = pure () := if_pos h.isWhole

/-- What stands in a plain tree stands there itself. -/
theorem Plain.resolve {t : Tree} (h : t.Plain) : t.resolve = pure t := by
  cases h <;> rfl

theorem holdAll_of_forall {ts : List Tree} (h : ∀ t ∈ ts, t.hold = pure t) :
    holdAll ts = pure ts := by
  induction ts with
  | nil => rfl
  | cons t ts ih =>
      simp only [List.mem_cons, forall_eq_or_imp] at h
      rw [holdAll, h.1, pure_bind, ih h.2, pure_bind]

theorem holdFields_named {fs : List (String × Tree)} (h : ∀ f ∈ fs, f.2.hold = pure f.2) :
    holdFields (named fs) = pure (named fs) := by
  induction fs with
  | nil => rfl
  | cons f fs ih =>
      simp only [List.mem_cons, forall_eq_or_imp] at h
      show holdFields ((.text f.1, f.2) :: named fs) = _
      rw [holdFields, show (Tree.text f.1).hold = pure (.text f.1) from rfl, pure_bind, h.1,
        pure_bind, ih h.2, pure_bind]
      rfl

/-- The scalars of a plain tree have their meaning already. -/
theorem Plain.hold {t : Tree} (h : t.Plain) : t.hold = pure t := by
  induction h with
  | list _ ih => rw [Tree.hold, holdAll_of_forall ih, map_pure]
  | record _ ih => rw [Tree.hold, holdFields_named ih, map_pure]
  | _ => rfl

end Tree

/-! ## Slots -/

/-- A place in a record. -/
structure Slot where
  name : String
  /-- What is written there. -/
  own : Tree
  /-- What may stand there as well. -/
  tells : Tree → Prop
  tells_own : tells own
  plain : ∀ {v}, tells v → v.Plain
  /-- Whether nothing has to stand there. -/
  optional : Prop

/-- The fields of a record fill some slots. -/
structure Lists (slots : List Slot) (l : List (String × Tree)) : Prop where
  tells : ∀ slot ∈ slots, ∀ v, (slot.name, v) ∈ l → slot.tells v
  /-- A field that belongs to no slot is a plain tree. -/
  other : ∀ f ∈ l, f.1 ∉ slots.map (·.name) → f.2.Plain
  /-- No slot is filled twice. -/
  once : l.Pairwise fun f g => f.1 = g.1 → f.1 ∉ slots.map (·.name)
  complete : ∀ slot ∈ slots, slot.optional ∨ slot.name ∈ l.map (·.1)

/-- Some fields fill slots of which those with the names in `seen` are filled already. -/
structure Fits (slots : List Slot) (seen : List String) (l : List (String × Tree)) : Prop where
  tells : ∀ slot ∈ slots, ∀ v, (slot.name, v) ∈ l → slot.tells v
  other : ∀ f ∈ l, f.1 ∉ slots.map (·.name) → f.2.Plain
  once : l.Pairwise fun f g => f.1 = g.1 → f.1 ∉ slots.map (·.name)
  fresh : ∀ f ∈ l, f.1 ∈ slots.map (·.name) → f.1 ∉ seen

namespace Fits

variable {slots : List Slot} {seen : List String} {f : String × Tree} {l : List (String × Tree)}

theorem tail (h : Fits slots seen (f :: l)) : Fits slots seen l where
  tells slot hslot v hv := h.tells slot hslot v (List.mem_cons_of_mem _ hv)
  other g hg := h.other g (List.mem_cons_of_mem _ hg)
  once := (List.pairwise_cons.mp h.once).2
  fresh g hg := h.fresh g (List.mem_cons_of_mem _ hg)

/-- The slot of the first field is filled for the others. -/
theorem tail_slot (h : Fits slots seen (f :: l)) (hname : f.1 ∈ slots.map (·.name)) :
    Fits slots (f.1 :: seen) l where
  tells := h.tail.tells
  other := h.tail.other
  once := h.tail.once
  fresh g hg hmem hin := by
    -- a field of the same slot behind this one would fill it twice
    rcases List.mem_cons.mp hin with hsame | hin
    · exact (List.pairwise_cons.mp h.once).1 g hg hsame.symm hname
    · exact h.tail.fresh g hg hmem hin

end Fits

namespace Lists

variable {slots : List Slot} {l : List (String × Tree)}

theorem plain (h : Lists slots l) {f : String × Tree} (hf : f ∈ l) : f.2.Plain := by
  by_cases hname : f.1 ∈ slots.map (·.name)
  · obtain ⟨slot, hslot, heq⟩ := List.mem_map.mp hname
    exact slot.plain (h.tells slot hslot f.2 (heq ▸ hf))
  · exact h.other f hf hname

/-- A record in which every slot is filled, in their order. -/
theorem ofValues {value : Slot → Tree} (h : (slots.map (·.name)).Nodup)
    (htells : ∀ slot ∈ slots, slot.tells (value slot)) :
    Lists slots (slots.map fun s => (s.name, value s)) where
  tells slot hslot v hv := by
    obtain ⟨slot', hslot', heq⟩ := List.mem_map.mp hv
    obtain ⟨hname, rfl⟩ := Prod.mk.inj heq
    have hsame : slot' = slot := List.inj_on_of_nodup_map h hslot' hslot hname
    exact hsame ▸ htells slot' hslot'
  other f hf hname := by
    obtain ⟨slot, hslot, rfl⟩ := List.mem_map.mp hf
    exact absurd (List.mem_map_of_mem hslot) hname
  once := by
    have hne : slots.Pairwise fun s s' => s.name ≠ s'.name := List.pairwise_map.mp h
    exact List.pairwise_map.mpr (hne.imp fun hne heq => absurd heq hne)
  complete slot hslot := by
    refine Or.inr (List.mem_map.mpr ⟨(slot.name, value slot), ?_, rfl⟩)
    exact List.mem_map_of_mem (f := fun s : Slot => (s.name, value s)) hslot

/-- A record in which everything stands as it is written. -/
theorem own (h : (slots.map (·.name)).Nodup) : Lists slots (slots.map fun s => (s.name, s.own)) :=
  ofValues h fun slot _ => slot.tells_own

/-- The fields may stand in any order. -/
theorem perm {l' : List (String × Tree)} (h : Lists slots l) (hperm : l.Perm l') :
    Lists slots l' where
  tells slot hslot v hv := h.tells slot hslot v (hperm.mem_iff.mpr hv)
  other f hf := h.other f (hperm.mem_iff.mpr hf)
  once := hperm.pairwise h.once fun hfg heq => heq ▸ hfg heq.symm
  complete slot hslot := (h.complete slot hslot).imp id (hperm.map _).mem_iff.mp

/-- A field may be left out if it is optional. -/
theorem drop {name : String} (h : Lists slots l)
    (hoptional : ∀ slot ∈ slots, slot.name = name → slot.optional) :
    Lists slots (l.filter fun f => f.1 ≠ name) where
  tells slot hslot v hv := h.tells slot hslot v (List.mem_filter.mp hv).1
  other f hf := h.other f (List.mem_filter.mp hf).1
  once := h.once.filter _
  complete slot hslot := by
    by_cases hname : slot.name = name
    · exact Or.inl (hoptional slot hslot hname)
    · refine (h.complete slot hslot).imp id fun hmem => ?_
      obtain ⟨f, hf, heq⟩ := List.mem_map.mp hmem
      exact List.mem_map.mpr
        ⟨f, List.mem_filter.mpr ⟨hf, decide_eq_true (heq ▸ hname)⟩, heq⟩

/-- A field of another name may be there as well. -/
theorem add {f : String × Tree} (h : Lists slots l) (hname : f.1 ∉ slots.map (·.name))
    (hplain : f.2.Plain) : Lists slots (f :: l) where
  tells slot hslot v hv := by
    rcases List.mem_cons.mp hv with rfl | hv
    · exact absurd (List.mem_map_of_mem hslot) hname
    · exact h.tells slot hslot v hv
  other g hg hother := by
    rcases List.mem_cons.mp hg with rfl | hg
    · exact hplain
    · exact h.other g hg hother
  once := List.pairwise_cons.mpr ⟨fun g hg heq => hname, h.once⟩
  complete slot hslot := (h.complete slot hslot).imp id (List.mem_cons_of_mem _)

theorem fits (h : Lists slots l) : Fits slots [] l where
  tells := h.tells
  other := h.other
  once := h.once
  fresh _ _ _ := List.not_mem_nil

/-- Without the fields of the first slot, the other slots are filled. -/
theorem tail {slot : Slot} (h : Lists (slot :: slots) l) (hne : slot.name ∉ slots.map (·.name)) :
    Lists slots (l.filter fun f => f.1 ≠ slot.name) where
  tells slot' hslot' v hv := h.tells slot' (List.mem_cons_of_mem _ hslot') v (List.mem_filter.mp hv).1
  other f hf hname := h.plain (List.mem_filter.mp hf).1
  once := (h.once.filter _).imp fun hfg heq hmem =>
    hfg heq (List.mem_cons_of_mem _ hmem)
  complete slot' hslot' := by
    refine (h.complete slot' (List.mem_cons_of_mem _ hslot')).imp id fun hmem => ?_
    obtain ⟨f, hf, heq⟩ := List.mem_map.mp hmem
    refine List.mem_map.mpr ⟨f, List.mem_filter.mpr ⟨hf, ?_⟩, heq⟩
    have hother : f.1 ≠ slot.name := fun hsame =>
      hne (List.mem_map.mpr ⟨slot', hslot', heq.symm.trans hsame⟩)
    exact decide_eq_true hother

end Lists

/-! ## Shapes -/

namespace Shape

variable {σ α : Type}

/-- A shape has certain slots, in which it finds `a`. Once the slots with some names were taken in
it knows `known`. -/
structure Follows (s : Shape σ α) (slots : List Slot) (known : List String → σ) (a : α) : Prop where
  fields : s.fields = slots.map (·.name)
  blank : s.blank = known []
  take : ∀ slot ∈ slots, ∀ o v seen, slot.tells v →
    s.take o slot.name v (known seen) = pure (known (slot.name :: seen))
  finish : ∀ seen, (∀ slot ∈ slots, slot.optional ∨ slot.name ∈ seen) →
    s.finish (known seen) = .ok a

namespace Follows

variable {s : Shape σ α} {slots : List Slot} {known : List String → σ} {a : α} {o : Origin}

theorem fieldName_text (name : String) : s.fieldName o (.text name) = pure name := by
  cases o <;> rfl

/-- The field of a slot is taken in. -/
theorem takeFields_slot (hs : s.Follows slots known a) {slot : Slot} (hslot : slot ∈ slots)
    {v : Tree} (hv : slot.tells v) {seen : List String} (hfresh : slot.name ∉ seen)
    (l : List (String × Tree)) :
    s.takeFields o seen (known seen) (named ((slot.name, v) :: l)) =
      s.takeFields o (slot.name :: seen) (known (slot.name :: seen)) (named l) := by
  have hname : slot.name ∈ s.fields := hs.fields ▸ List.mem_map_of_mem hslot
  show s.takeFields o seen (known seen) ((.text slot.name, v) :: named l) = _
  rw [Shape.takeFields, fieldName_text, pure_bind, if_pos hname]
  simp only [if_neg hfresh, hs.take slot hslot o v seen hv, pure_bind]

/-- Any other field is passed over. -/
theorem takeFields_other (hs : s.Follows slots known a) {f : String × Tree}
    (hname : f.1 ∉ slots.map (·.name)) (hv : f.2.Plain) {seen : List String}
    (l : List (String × Tree)) :
    s.takeFields o seen (known seen) (named (f :: l)) =
      s.takeFields o seen (known seen) (named l) := by
  show s.takeFields o seen (known seen) ((.text f.1, f.2) :: named l) = _
  rw [Shape.takeFields, fieldName_text, pure_bind, hs.fields, if_neg hname, hv.skip, pure_bind]

/-- The fields are taken in one after the other, and then all their names were seen. -/
theorem takeFields (hs : s.Follows slots known a) (l : List (String × Tree)) :
    ∀ {seen}, Fits slots seen l →
      ∃ seen', s.takeFields o seen (known seen) (named l) = pure (known seen') ∧
        ∀ name ∈ slots.map (·.name), name ∈ seen ∨ name ∈ l.map (·.1) → name ∈ seen' := by
  induction l with
  | nil =>
      intro seen _
      exact ⟨seen, rfl, fun name _ hmem => hmem.elim id fun h => nomatch h⟩
  | cons f l ih =>
      intro seen hfits
      -- the field fills a slot, or it is passed over and its name is not seen
      by_cases hname : f.1 ∈ slots.map (·.name)
      · obtain ⟨slot, hslot, heq⟩ := List.mem_map.mp hname
        have hfresh := hfits.fresh f List.mem_cons_self hname
        obtain ⟨seen', htaken, hseen'⟩ := ih (hfits.tail_slot hname)
        obtain ⟨_, v⟩ := f
        obtain rfl : slot.name = _ := heq
        refine ⟨seen', ?_, fun name hmem hin => hseen' name hmem ?_⟩
        · rw [hs.takeFields_slot hslot (hfits.tells slot hslot v List.mem_cons_self) hfresh, htaken]
        · simp only [List.map_cons, List.mem_cons] at hin ⊢
          rcases hin with hin | hin | hin <;> simp [hin]
      · obtain ⟨seen', htaken, hseen'⟩ := ih hfits.tail
        refine ⟨seen', ?_, fun name hmem hin => hseen' name hmem ?_⟩
        · rw [hs.takeFields_other hname (hfits.other f List.mem_cons_self hname), htaken]
        · refine hin.imp id fun hin => (List.mem_cons.mp hin).resolve_left ?_
          rintro rfl
          exact hname hmem

/-- **Fields that fill the slots of a shape are read to the value that the shape finds there.** -/
theorem read (hs : s.Follows slots known a) {l : List (String × Tree)} (h : Lists slots l) :
    s.read o (.record (named l)) = pure a := by
  obtain ⟨seen, htaken, hseen⟩ := hs.takeFields (o := o) l h.fits
  have hfinish : s.finish (known seen) = .ok a := by
    refine hs.finish seen fun slot hslot => (h.complete slot hslot).imp id fun hmem => ?_
    exact hseen _ (List.mem_map_of_mem hslot) (Or.inr hmem)
  have hread : s.read o (.record (named l)) = s.ofFields o (named l) := by
    cases o <;> rfl
  rw [hread, ofFields, hs.blank, htaken, pure_bind]
  simp only [hfinish]

end Follows

end Shape

/-! ## Tags -/

section Tagged

variable {tag kind : String} {kinds : List String}

theorem tagName_text (h : kind ∈ kinds) : tagName kinds (.text kind) = pure kind := by
  have hread : tagName kinds (.text kind) = Tree.chosen (kinds.map fun n => (n, n)) kind := rfl
  have hfind : (kinds.map fun n => (n, n)).find? (·.1 = kind) = some (kind, kind) := by
    induction kinds with
    | nil => cases h
    | cons n ns ih =>
        by_cases hsame : n = kind
        · simp [hsame]
        · rw [List.map_cons, List.find?_cons_of_neg (by simpa using hsame)]
          exact ih ((List.mem_cons.mp h).resolve_left fun heq => hsame heq.symm) rfl
  rw [hread, Tree.chosen, hfind]

/-- Splits one field off. -/
theorem splitTag_cons {found : Option String} {f : String × Tree} {l : List (String × Tree)} :
    splitTag tag kinds found (named (f :: l)) =
      if f.1 = tag then do
        if found.isSome then throw (.repeatedField tag)
        let found ← tagName kinds f.2
        splitTag tag kinds (some found) (named l)
      else do
        let v ← f.2.hold
        let (found, rest) ← splitTag tag kinds found (named l)
        return (found, (.text f.1, v) :: rest) := by
  show splitTag tag kinds found ((.text f.1, f.2) :: named l) = _
  rw [splitTag, show (Tree.text f.1).hold = pure (.text f.1) from rfl, pure_bind]

/-- Fields without a tag are only held. -/
theorem splitTag_of_notMem {found : Option String} (l : List (String × Tree))
    (hplain : ∀ f ∈ l, f.2.Plain) (htag : ∀ f ∈ l, f.1 ≠ tag) :
    splitTag tag kinds found (named l) = pure (found, named l) := by
  induction l with
  | nil => rfl
  | cons f l ih =>
      rw [splitTag_cons, if_neg (htag f List.mem_cons_self),
        (hplain f List.mem_cons_self).hold, pure_bind,
        ih (fun g hg => hplain g (List.mem_cons_of_mem _ hg))
          fun g hg => htag g (List.mem_cons_of_mem _ hg), pure_bind]
      rfl

/-- The tag is found wherever it stands. -/
theorem splitTag_of_mem (hkind : kind ∈ kinds) (l : List (String × Tree))
    (hplain : ∀ f ∈ l, f.2.Plain) (hmem : (tag, .text kind) ∈ l)
    (honce : l.Pairwise fun f g => f.1 = g.1 → f.1 ≠ tag) :
    splitTag tag kinds none (named l) =
      pure (some kind, named (l.filter fun f => f.1 ≠ tag)) := by
  induction l with
  | nil => cases hmem
  | cons f l ih =>
      obtain ⟨hhead, honce⟩ := List.pairwise_cons.mp honce
      have hplain' : ∀ g ∈ l, g.2.Plain := fun g hg => hplain g (List.mem_cons_of_mem _ hg)
      by_cases htag : f.1 = tag
      · -- behind the tag there is no other one, so the rest is only held
        have hothers : ∀ g ∈ l, g.1 ≠ tag := fun g hg hsame =>
          hhead g hg (htag.trans hsame.symm) htag
        have hvalue : f = (tag, .text kind) :=
          (List.mem_cons.mp hmem).elim Eq.symm fun hin => absurd rfl (hothers _ hin)
        have hfilter : (f :: l).filter (fun f => f.1 ≠ tag) = l := by
          rw [List.filter_cons_of_neg (by simpa using htag), List.filter_eq_self]
          exact fun g hg => decide_eq_true (hothers g hg)
        rw [splitTag_cons, if_pos htag, hfilter, hvalue]
        simp only [Option.isSome_none, Bool.false_eq_true, if_false, tagName_text hkind, pure_bind]
        exact splitTag_of_notMem l hplain' hothers
      · have hin : (tag, .text kind) ∈ l := by
          refine (List.mem_cons.mp hmem).resolve_left fun heq => htag ?_
          rw [← heq]
        rw [splitTag_cons, if_neg htag, (hplain f List.mem_cons_self).hold, pure_bind,
          ih hplain' hin honce, pure_bind, List.filter_cons_of_pos (by simpa using htag)]
        rfl

/-- **A record with a tag is read as the tag and the other fields**, in their order. -/
theorem readTagged_lists (title : String) {slot : Slot} {slots : List Slot}
    {l : List (String × Tree)} (hkind : kind ∈ kinds) (htells : ∀ v, slot.tells v → v = .text kind)
    (hrequired : ¬slot.optional) (h : Lists (slot :: slots) l) :
    readTagged title slot.name kinds (.record (named l)) =
      pure (kind, .record (named (l.filter fun f => f.1 ≠ slot.name))) := by
  have hmem : (slot.name, .text kind) ∈ l := by
    obtain ⟨f, hf, hname⟩ := List.mem_map.mp
      ((h.complete slot List.mem_cons_self).resolve_left hrequired)
    have hvalue := htells f.2 (h.tells slot List.mem_cons_self f.2 (hname ▸ hf))
    rwa [← hname, ← hvalue]
  have honce : l.Pairwise fun f g => f.1 = g.1 → f.1 ≠ slot.name :=
    h.once.imp fun hfg heq hsame => hfg heq (List.mem_cons.mpr (Or.inl hsame))
  have hsplit := splitTag_of_mem hkind l (fun f hf => h.plain hf) hmem honce
  have hread : readTagged title slot.name kinds (.record (named l)) =
      readTagged.go title slot.name kinds (.record (named l)) := rfl
  rw [hread, readTagged.go, hsplit, pure_bind]

end Tagged

end NearCache.Document
