import NearCache.Proofs.Cluster.Operations

/-!
# Calls that overlap

Nodes start, and caches are created and destroyed, while other calls of this kind are under way. A
call is cut into stages wherever others may come between: each touches the cluster once, as one of
the small steps of `NearCache.Cluster`, and says which stages it leads to. What a stage has read, a
registry or the running nodes, is written into the stages after it, and may be out of date when they
come.

A cache is propagated to all nodes side by side, and taken from all of them in any order. Each node
has a strand of its own in the job, and the call goes on when all strands have ended. A strand that
fails ends, and nobody minds; a call that fails by itself ends with the fault.

`Overlap` is a cluster with the jobs of such calls, and `Overlap.after` lets them go on in the order
of a schedule, which may be any. That a job which is alone does what the operation does is shown in
`NearCache.Proofs.Overlap.Alone`.
-/

namespace NearCache

/-- One stage of a call. -/
inductive Stage where
  /-- A node joins. -/
  | enrol (n : NodeConfig)
  /-- A cache that a node brings along is registered. -/
  | register (id : MemberId) (config : CacheConfig)
  /-- A cache is registered in the name of a member. -/
  | create (creator : MemberId) (config : CacheConfig)
  /-- A cache starts on a node. -/
  | activate (id : MemberId) (config : CacheConfig) (t : Trigger)
  /-- A cache that has started on a node is taken back if it is not registered any more. -/
  | confirm (id : MemberId) (name : String)
  /-- The running nodes are read; on each but one the cache is to start. -/
  | spread (config : CacheConfig) (skip : Option MemberId)
  /-- The registry is read; each cache is to start on the node that joins. -/
  | join (id : MemberId)
  /-- A cache is taken from the registry. -/
  | unregister (name : String)
  /-- The running nodes are read; from each the cache is to be taken. -/
  | sweep (name : String)
  /-- A cache is taken from a node. -/
  | deactivate (id : MemberId) (name : String)
  /-- The data of a cache is dropped, and its end is told. -/
  | drop (name : String)
  deriving DecidableEq

/-- What a stage leads to. -/
structure Sequel where
  /-- The next stages of the call. -/
  next : List Stage := []
  /-- What has to end before, side by side. -/
  beside : List (List Stage) := []

/-- All stages that a stage leads to. -/
def Sequel.stages (s : Sequel) : List Stage := s.next ++ s.beside.flatten

namespace Stage

/-- Carries out a stage. -/
def perform (c : Cluster) : Stage → Outcome Sequel × Cluster
  | enrol n =>
    match c.enrol n with
    | .error e => (.error e, c)
    | .ok (id, c) => (.ok { next := n.staticCaches.map (register id) ++ [join id] }, c)
  | register id config =>
    let (effective, c) := c.registerStatic config
    (.ok { next := [activate id effective .static, spread effective (some id)] }, c)
  | create creator config =>
    match config.check with
    | .error e => (.error e, c)
    | .ok () =>
      if (c.roster.byId? creator).isNone then (.error (.nodeNotFound (.id creator)), c)
      else if c.registry.contains config.name then (.error (.cacheExists config.name), c)
      else
        (.ok { next := [spread config none] },
          { c with registry := c.registry.insert config.name config })
  | activate id config t =>
    match c.activateOn id config t with
    | (.error e, c) => (.error e, c)
    | (.ok _, c) => (.ok { next := [confirm id config.name] }, c)
  | confirm id name => (.ok {}, c.confirm id name)
  | spread config skip =>
    let ids := c.running.keys.filter fun id => some id ≠ skip
    (.ok { beside := ids.map fun id => [activate id config .dynamic] }, c)
  | join id => (.ok { next := c.registry.values.map fun config => activate id config .join }, c)
  | unregister name =>
    if c.registry.contains name then
      (.ok { next := [sweep name, drop name] }, { c with registry := c.registry.erase name })
    else (.ok {}, c)
  | sweep name => (.ok { beside := c.running.keys.map fun id => [deactivate id name] }, c)
  | deactivate id name => (.ok {}, c.deactivateOn id name)
  | drop name =>
    (.ok {}, { c with fabric := c.fabric.destroy name }.publish (.cacheDestroyed name))

/-- Whether a call begins with the stage. -/
def isEntry : Stage → Bool
  | enrol _ => true
  | create .. => true
  | unregister _ => true
  | _ => false

end Stage

/-- What can be asked for while other calls are under way. -/
inductive Call where
  | start (n : NodeConfig)
  | create (creator : MemberId) (config : CacheConfig)
  | destroy (name : String)

namespace Call

/-- The first stage of a call. -/
def entry : Call → Stage
  | start n => .enrol n
  | create creator config => .create creator config
  | destroy name => .unregister name

/-- The name of the node that a call starts. -/
def nodeName? : Call → Option String
  | start n => some n.name
  | _ => none

end Call

/-- A call under way. -/
structure Job where
  call : Call
  /-- What goes on side by side. -/
  strands : List (List Stage) := []
  /-- What comes when that has ended. -/
  main : List Stage
  /-- Why the call has failed. -/
  fault : Option Fault := none

namespace Job

/-- A call that has just been made. -/
def ofCall (call : Call) : Job := { call, main := [call.entry] }

/-- Whether the call has returned. -/
def isDone (j : Job) : Bool := j.strands.all List.isEmpty && j.main.isEmpty

/-- All stages that are still to come, as far as it is known. -/
def stages (j : Job) : List Stage := j.strands.flatten ++ j.main

/-- The stage that comes next in a strand, or in the call itself once all strands have ended. -/
def stage? (j : Job) : Option Nat → Option Stage
  | some k => (j.strands[k]?).bind List.head?
  | none => if j.strands.all List.isEmpty then j.main.head? else none

/-- The job after the stage in this place has come to this. -/
def proceed (j : Job) (place : Option Nat) (r : Outcome Sequel) : Job :=
  match place, r with
  | some k, .ok s =>
    { j with strands := j.strands.set k (s.next ++ (j.strands[k]?.getD []).tail) ++ s.beside }
  | some k, .error _ => { j with strands := j.strands.set k [] }
  | none, .ok s => { j with strands := s.beside, main := s.next ++ j.main.tail }
  | none, .error e => { j with strands := [], main := [], fault := some e }

end Job

/-- A cluster and the calls under way. -/
structure Overlap where
  cluster : Cluster
  jobs : List Job

/-- The choice of a job, and of a strand of it or of the call itself. -/
abbrev Turn := Nat × Option Nat

namespace Overlap

/-- Calls that are all made at once. -/
def ofCalls (c : Cluster) (calls : List Call) : Overlap := ⟨c, calls.map Job.ofCall⟩

/-- The stage whose turn it is, if there is one. -/
def stage? (o : Overlap) (turn : Turn) : Option Stage :=
  (o.jobs[turn.1]?).bind fun j => j.stage? turn.2

/-- Lets one job go on by one stage. -/
def advance (o : Overlap) (turn : Turn) : Overlap :=
  match o.jobs[turn.1]? with
  | none => o
  | some j =>
    match j.stage? turn.2 with
    | none => o
    | some t =>
      let (r, c) := t.perform o.cluster
      ⟨c, o.jobs.set turn.1 (j.proceed turn.2 r)⟩

/-- Lets jobs go on in the order of a schedule. -/
def after (o : Overlap) (schedule : List Turn) : Overlap := schedule.foldl advance o

/-- Whether all calls have returned. -/
def returned (o : Overlap) : Bool := o.jobs.all Job.isDone

/-- The stage is still to come in one of the jobs. -/
def Pending (o : Overlap) (t : Stage) : Prop := ∃ j ∈ o.jobs, t ∈ j.stages

end Overlap

/-! ## What a turn does to the stages to come -/

namespace Job

variable {j : Job} {place : Option Nat} {t : Stage}

/-- A job that is done has no stages to come. -/
theorem stages_eq_nil (h : j.isDone = true) : j.stages = [] := by
  unfold isDone at h
  rw [Bool.and_eq_true, List.all_eq_true] at h
  unfold stages
  rw [List.append_eq_nil_iff, List.flatten_eq_nil_iff]
  exact ⟨fun s hs => List.isEmpty_iff.mp (h.1 s hs), List.isEmpty_iff.mp h.2⟩

/-- The stage whose turn it is stands first in a strand, or first of all. -/
theorem stage?_cases (h : j.stage? place = some t) :
    (∃ k rest, place = some k ∧ j.strands[k]? = some (t :: rest)) ∨
      ∃ rest, place = none ∧ j.strands.flatten = [] ∧ j.main = t :: rest := by
  cases place with
  | some k =>
      left
      obtain ⟨s, hs, hhead⟩ := Option.bind_eq_some_iff.mp h
      cases s with
      | nil => cases hhead
      | cons u rest =>
          cases hhead
          exact ⟨k, rest, rfl, hs⟩
  | none =>
      right
      unfold stage? at h
      dsimp only at h
      split at h
      · next hall =>
        have hflat : j.strands.flatten = [] := by
          rw [List.flatten_eq_nil_iff]
          exact fun s hs => List.isEmpty_iff.mp (List.all_eq_true.mp hall s hs)
        cases hm : j.main with
        | nil => rw [hm] at h; cases h
        | cons u rest =>
            rw [hm] at h
            cases h
            exact ⟨rest, rfl, hflat, rfl⟩
      · cases h

theorem mem_of_stage? (h : j.stage? place = some t) : t ∈ j.stages := by
  unfold stages
  rcases stage?_cases h with ⟨k, rest, -, hk⟩ | ⟨rest, -, -, hm⟩
  · refine List.mem_append_left _ (List.mem_flatten.mpr ⟨t :: rest, ?_, List.mem_cons_self⟩)
    exact List.mem_of_getElem? hk
  · rw [hm]
    exact List.mem_append_right _ List.mem_cons_self

/-- Replacing a strand exchanges its stages and no others. -/
theorem perm_set_flatten {s : List Stage} (s' : List Stage) :
    ∀ {ss : List (List Stage)} {k : Nat}, ss[k]? = some s →
      (s ++ (ss.set k s').flatten).Perm (s' ++ ss.flatten) := by
  intro ss
  induction ss with
  | nil => intro k h; cases h
  | cons r ss ih =>
      intro k h
      cases k with
      | zero =>
          cases h
          exact List.perm_append_comm_assoc s s' ss.flatten
      | succ k =>
          have hrest : (s ++ (ss.set k s').flatten).Perm (s' ++ ss.flatten) := ih h
          exact (List.perm_append_comm_assoc s r _).trans
            ((hrest.append_left r).trans (List.perm_append_comm_assoc r s' _))

/-- A stage that does not fail gives way to what it leads to. -/
theorem perm_proceed (ht : j.stage? place = some t) (s : Sequel) :
    (t :: (j.proceed place (.ok s)).stages).Perm (s.stages ++ j.stages) := by
  unfold stages Sequel.stages
  refine List.perm_iff_count.mpr fun x => ?_
  rcases stage?_cases ht with ⟨k, rest, rfl, hk⟩ | ⟨rest, rfl, hflat, hm⟩
  · have hset := (perm_set_flatten (s.next ++ rest) hk).count_eq x
    simp only [List.cons_append, List.count_cons, List.count_append] at hset
    simp only [proceed, hk, Option.getD_some, List.tail_cons, List.flatten_append, List.count_cons,
      List.count_append]
    omega
  · simp only [proceed, hflat, hm, List.tail_cons, List.nil_append, List.count_cons,
      List.count_append]
    omega

/-- So it is exchanged for what it leads to. -/
theorem perm_proceed_erase (ht : j.stage? place = some t) (s : Sequel) :
    (j.proceed place (.ok s)).stages.Perm (s.stages ++ j.stages.erase t) := by
  have hgone := List.perm_cons_erase (mem_of_stage? ht)
  exact (((perm_proceed ht s).trans (hgone.append_left s.stages)).trans List.perm_middle).cons_inv

/-- A call that fails at once is over. -/
theorem stages_proceed_error (ht : j.stage? place = some t) (hj : j.stages = [t]) (e : Fault) :
    (j.proceed place (.error e)).stages = [] := by
  have hlen : j.strands.flatten.length + j.main.length = 1 := by
    rw [← List.length_append]
    exact congrArg List.length hj
  unfold stages
  rcases stage?_cases ht with ⟨k, rest, rfl, hk⟩ | ⟨rest, rfl, -, -⟩
  · have hset := (perm_set_flatten [] hk).length_eq
    simp only [List.length_append, List.length_cons, List.nil_append] at hset
    refine List.eq_nil_of_length_eq_zero ?_
    rw [List.length_append]
    show (j.strands.set k []).flatten.length + j.main.length = 0
    omega
  · rfl

@[simp] theorem call_proceed (j : Job) (place : Option Nat) (r : Outcome Sequel) :
    (j.proceed place r).call = j.call := by
  unfold proceed
  split <;> rfl

end Job

namespace Overlap

variable {o : Overlap}

theorem pending_eq_false (h : o.returned = true) (t : Stage) : ¬ o.Pending t := by
  rintro ⟨j, hj, ht⟩
  rw [Job.stages_eq_nil (List.all_eq_true.mp h j hj)] at ht
  cases ht

/-- A turn does nothing, or it carries out one stage of one job. -/
theorem advance_cases (o : Overlap) (turn : Turn) :
    (o.stage? turn = none ∧ o.advance turn = o) ∨ ∃ j t,
      o.stage? turn = some t ∧ o.jobs[turn.1]? = some j ∧ j.stage? turn.2 = some t ∧
      o.advance turn = ⟨(t.perform o.cluster).2,
        o.jobs.set turn.1 (j.proceed turn.2 (t.perform o.cluster).1)⟩ := by
  unfold advance stage?
  cases hj : o.jobs[turn.1]? with
  | none => exact Or.inl ⟨rfl, rfl⟩
  | some j =>
      dsimp only [Option.bind_some]
      cases ht : j.stage? turn.2 with
      | none => exact Or.inl ⟨rfl, rfl⟩
      | some t => exact Or.inr ⟨j, t, rfl, rfl, ht, rfl⟩

/-- The calls stay what they are. -/
theorem calls_advance (o : Overlap) (turn : Turn) :
    (o.advance turn).jobs.map Job.call = o.jobs.map Job.call := by
  rcases advance_cases o turn with ⟨-, h⟩ | ⟨j, t, -, hj, -, h⟩
  · rw [h]
  · rw [h, List.map_set, Job.call_proceed]
    refine List.ext_getElem? fun i => ?_
    rw [List.getElem?_set]
    split
    · next hi =>
      subst hi
      rw [List.getElem?_map, hj]
      have hlen := (List.getElem?_eq_some_iff.mp hj).1
      simp [hlen]
    · rfl

end Overlap

end NearCache
