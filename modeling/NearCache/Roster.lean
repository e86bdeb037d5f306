import NearCache.Fault
/-!
# The roster of members

The members of a cluster in the order in which they joined.  No two members bear the same name.
-/

namespace NearCache

/-- The members of a cluster, in the order in which they joined. -/
abbrev Roster := List Member

namespace Roster

/-- Adds a member at the end, unless its name is taken. -/
def join (r : Roster) (m : Member) : Outcome Roster :=
  if r.any (·.name = m.name) then .error (.nodeNameTaken m.name) else .ok (r ++ [m])

/-- The member with a number. -/
def byId? (r : Roster) (id : MemberId) : Option Member := r.find? (·.id = id)

/-- The member with a name. -/
def byName? (r : Roster) (name : String) : Option Member := r.find? (·.name = name)

/-- Takes the member with a number away. -/
def leave (r : Roster) (id : MemberId) : Option Member × Roster :=
  (r.byId? id, r.eraseP (·.id = id))

/-- Joining adds a name that was free, so names stay distinct. -/
theorem nodup_join {r r' : Roster} {m : Member} (h : r.join m = .ok r')
    (hr : (r.map Member.name).Nodup) : (r'.map Member.name).Nodup := by
  unfold join at h
  split at h
  · cases h
  · next free =>
    cases h
    simp only [List.any_eq_true, decide_eq_true_eq, not_exists, not_and] at free
    rw [List.map_append, List.nodup_append]
    refine ⟨hr, by simp, fun a ha b hb hab => ?_⟩
    obtain ⟨x, hx, rfl⟩ := List.mem_map.1 ha
    simp at hb
    exact free x hx (hab.trans hb)

/-- Leaving takes away the member with the number and nobody else. -/
theorem mem_leave_iff {r : Roster} {id : MemberId} (h : (r.map Member.id).Nodup) {m : Member} :
    m ∈ (r.leave id).2 ↔ m ∈ r ∧ m.id ≠ id := by
  show m ∈ r.eraseP (·.id = id) ↔ _
  induction r with
  | nil => simp
  | cons a rest ih =>
    obtain ⟨ha, hrest⟩ := List.nodup_cons.1 h
    by_cases hid : a.id = id
    · have hne : ∀ x ∈ rest, x.id ≠ id := fun x hx he =>
        ha (List.mem_map.2 ⟨x, hx, he.trans hid.symm⟩)
      rw [List.eraseP_cons_of_pos (by simpa using hid), List.mem_cons]
      constructor
      · exact fun hm => ⟨.inr hm, hne m hm⟩
      · rintro ⟨rfl | hm, hn⟩
        · exact absurd hid hn
        · exact hm
    · rw [List.eraseP_cons_of_neg (by simpa using hid), List.mem_cons, List.mem_cons, ih hrest]
      constructor
      · rintro (rfl | ⟨hm, hn⟩)
        · exact ⟨.inl rfl, hid⟩
        · exact ⟨.inr hm, hn⟩
      · rintro ⟨rfl | hm, hn⟩
        · exact .inl rfl
        · exact .inr ⟨hm, hn⟩

end Roster

end NearCache
