import NearCache.Proofs.Placement.Selection

/-!
# Who a member is to a selector

A user may give a node any attributes, even under the two keys by which members say who they are.
What a selector sees of a member that has enrolled is `Member.shown`: its own two attributes, and the
user's under all other keys. So nobody is taken for another, and no test of such a member fails.

`Selector.Means` says whom a selector means, given a name and what is shown; it knows of no members.
`Member.Genuine` says that a member is just that to every selector and every placement, and
`Member.genuine_enrolled` that every member that has enrolled is. Nothing else decides: two caches
with the same near-cache settings are placed alike on two members that show the same
(`Genuine.decide_eq`).
-/

namespace NearCache

/-- What a member shows under a key, when its user has given it some attributes: the two attributes
of its own come first. -/
def Member.shown (name : String) (role : Role) (user : Attributes) (key : String) :
    Option AttrValue :=
  if key = nameKey then some (.text name)
  else if key = clientKey then some (.bool role.isClient)
  else user.get? key

theorem Member.attribute?_enrolled (id : MemberId) (name : String) (role : Role)
    (user : Attributes) (key : String) :
    (enrolled id name role user).attribute? key = shown name role user key := by
  unfold shown
  split
  · next hname => rw [hname, get?_enrolled_name]
  · next hname =>
    split
    · next hclient => rw [hclient, get?_enrolled_client]
    · next hclient => exact get?_enrolled_user id name role user hname hclient

/-- Whom a selector means: members by their names, or by what they show. -/
def Selector.Means (name : String) (shown : String → Option AttrValue) : Selector → Prop
  | everyone => True
  | named names => name ∈ names.keys
  | withAttribute key value => shown key = some value
  | withAttributes attributes =>
    ∀ key value, attributes.get? key = some value → shown key = some value

/-- Near-cache settings ask for a near cache on members with a name that show some attributes. -/
def NearConfig.Asks (near : Option NearConfig) (name : String)
    (shown : String → Option AttrValue) : Prop :=
  ∀ settings, near = some settings → settings.enabled = true ∧
    ∀ s, settings.selector = some s → s.check = .ok () ∧ s.Means name shown

/-- To selectors and placements the member is the one that bears a name and shows some attributes. -/
structure Member.Genuine (m : Member) (name : String) (shown : String → Option AttrValue) :
    Prop where
  attributes : ∀ key, m.attribute? key = shown key
  /-- A test of the member does not fail. -/
  tested : ∀ s : Selector, s.test m = .ok (s.selects m)
  selects : ∀ s : Selector, s.selects m = true ↔ s.Means name shown
  /-- To ask for the attribute that holds the name is to ask for the name. -/
  byName : ∀ text, (Selector.withAttribute nameKey (.text text)).test m =
    (Selector.ofNames [text]).test m
  /-- To ask for attributes is to ask for each of them. -/
  each : ∀ attributes, (Selector.withAttributes attributes).selects m =
    attributes.entries.all fun e => (Selector.withAttribute e.1 e.2).selects m
  placed : ∀ c, Placement.decide c m = .present ↔ NearConfig.Asks c.near name shown
  /-- No near cache is kept away because of a test that failed. -/
  decided : ∀ c text, Placement.decide c m ≠ .absent (.testFailed text)

namespace Member

variable {m m' : Member} {name : String} {shown : String → Option AttrValue}

/-! ## Tests -/

/-- A member that shows its name can be tested. -/
theorem test_of_named (hname : m.attribute? nameKey = some (.text name)) (s : Selector) :
    s.test m = .ok (s.selects m) := by
  cases s with
  | everyone | withAttribute | withAttributes => rfl
  | named names => simp [Selector.selects, Selector.test, hname]

theorem selects_iff_means (hname : m.attribute? nameKey = some (.text name)) (s : Selector) :
    s.selects m = true ↔ s.Means name m.attribute? := by
  cases s with
  | everyone => exact iff_of_true rfl trivial
  | named names =>
      rw [Selector.selects_named, hname]
      constructor
      · rintro ⟨name', heq, hlisted⟩
        cases heq
        exact Table.mem_keys_iff.mpr (Table.contains_iff.mp hlisted)
      · exact fun hmem => ⟨name, rfl, Table.contains_iff.mpr (Table.mem_keys_iff.mp hmem)⟩
  | withAttribute key value => exact Selector.selects_withAttribute key value
  | withAttributes attributes => exact Selector.selects_withAttributes attributes

/-- A list of one name means who bears the name. -/
theorem means_ofNames_singleton (text : String) :
    (Selector.ofNames [text]).Means name shown ↔ text = name := by
  show name ∈ (Table.ofList [(text, ())]).keys ↔ _
  rw [Table.mem_keys_ofList_iff]
  simp [eq_comm]

/-- Where tests do not fail, a near cache is kept away only if the settings do not ask for it. -/
theorem decide_cases (hname : m.attribute? nameKey = some (.text name)) (c : CacheConfig) :
    Placement.decide c m = .present ∧ NearConfig.Asks c.near name m.attribute? ∨
      ∃ reason, Placement.decide c m = .absent reason ∧ (∀ text, reason ≠ .testFailed text) ∧
        ¬ NearConfig.Asks c.near name m.attribute? := by
  unfold Placement.decide NearConfig.Asks
  cases c.near with
  | none => simp
  | some near =>
      cases hon : near.enabled with
      | false => simp [hon]
      | true =>
          cases hs : near.selector with
          | none => simp [hon, hs]
          | some s =>
              cases hc : s.check with
              | error e => simp [hon, hs, hc]
              | ok u =>
                  have hmeans := selects_iff_means hname s
                  cases hsel : s.selects m with
                  | true => simp [hon, hs, hc, test_of_named hname, hsel, hmeans.mp hsel]
                  | false =>
                      have hnot : ¬ s.Means name m.attribute? := fun h => by
                        rw [hmeans.mpr h] at hsel
                        cases hsel
                      simp [hon, hs, hc, test_of_named hname, hsel, hnot]

/-- A member that shows its name under its key is nobody else. -/
theorem genuine_of_named (hname : m.attribute? nameKey = some (.text name)) :
    m.Genuine name m.attribute? where
  attributes _ := rfl
  tested := test_of_named hname
  selects := selects_iff_means hname
  byName text := by
    rw [test_of_named hname, test_of_named hname, Except.ok.injEq, Bool.eq_iff_iff,
      selects_iff_means hname, selects_iff_means hname, means_ofNames_singleton]
    show m.attribute? nameKey = _ ↔ _
    rw [hname]
    simp [eq_comm]
  each attributes := by
    rw [Bool.eq_iff_iff, Selector.selects_withAttributes, List.all_eq_true]
    constructor
    · intro h e he
      exact (Selector.selects_withAttribute e.1 e.2).mpr
        (h e.1 e.2 ((attributes.mem_entries_iff e.1 e.2).mp he))
    · intro h key value hv
      exact (Selector.selects_withAttribute key value).mp
        (h (key, value) ((attributes.mem_entries_iff key value).mpr hv))
  placed c := by
    rcases decide_cases hname c with ⟨hpresent, hasks⟩ | ⟨reason, habsent, -, hasks⟩
    · exact iff_of_true hpresent hasks
    · exact iff_of_false (fun h => by rw [habsent] at h; cases h) hasks
  decided c text h := by
    rcases decide_cases hname c with ⟨hpresent, -⟩ | ⟨reason, habsent, hreason, -⟩
    · rw [hpresent] at h
      cases h
    · rw [habsent] at h
      cases h
      exact hreason text rfl

/-- Whatever attributes a user gives a node, the node enrols as what it is. -/
theorem genuine_enrolled (id : MemberId) (name : String) (role : Role) (user : Attributes) :
    (enrolled id name role user).Genuine name (Member.shown name role user) := by
  have hshown : (enrolled id name role user).attribute? = Member.shown name role user :=
    funext (attribute?_enrolled id name role user)
  rw [← hshown]
  exact genuine_of_named (get?_enrolled_name id name role user)

/-! ## Placements -/

/-- Tests see what a member shows, and nothing else of it. -/
theorem Genuine.selects_eq (h : m.Genuine name shown) (h' : m'.Genuine name shown)
    (s : Selector) : s.selects m = s.selects m' := by
  rw [Bool.eq_iff_iff, h.selects, h'.selects]

/-- Caches with the same near-cache settings are placed alike on members that show the same. -/
theorem Genuine.decide_eq (h : m.Genuine name shown) (h' : m'.Genuine name shown)
    {c c' : CacheConfig} (hnear : c.near = c'.near) :
    Placement.decide c m = Placement.decide c' m' := by
  have htest : ∀ s : Selector, s.test m = s.test m' := by
    intro s
    rw [h.tested, h'.tested, h.selects_eq h']
  unfold Placement.decide
  rw [hnear]
  simp only [htest]

/-- A node with the name of another among its attributes, and a number where a text is asked for. -/
example :
    let m := enrolled 0 "a" .server (((∅ : Attributes).insert nameKey (.text "b")).insert "rack"
      (.int 3))
    (Selector.ofNames ["b"]).test m = .ok false ∧ (Selector.ofNames ["a"]).test m = .ok true ∧
      (Selector.withAttribute "rack" (.text "3")).test m = .ok false ∧
      (Selector.withAttribute "rack" (.int 3)).test m = .ok true := by decide

end Member

end NearCache
