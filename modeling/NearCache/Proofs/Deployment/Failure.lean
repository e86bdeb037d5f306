import NearCache.Proofs.Deployment.Outcome

/-!
# When a deployment fails

A deployment that does not pass its check is refused before anything happens. One that passes it is
not undone when it fails: it stops at the first name that the cluster has given away, and the
cluster is left as the part of the deployment in front of this name makes it (`Unfinished`). So
nothing that was there before is lost, the nodes agree with the registry as they do after a success,
and whoever wants the state of before has to stop the nodes that have started.
-/

namespace NearCache

namespace Cluster

variable {c c' : Cluster}

/-- A deployment has stopped with a failure, and `c'` is what it has made of `c`. -/
inductive Unfinished (c : Cluster) (d : Deployment) : Fault → Cluster → Prop where
  /-- The first node whose name is in use does not start, nor does anything behind it. -/
  | node {before rest : List NodeConfig} {n : NodeConfig} {ids : List MemberId} {c' : Cluster}
      (parts : d.nodes = before ++ n :: rest) (taken : c.Bears n.name)
      (first : ∀ n' ∈ before, ¬ c.Bears n'.name)
      (applied : Applied c { nodes := before } ids c') :
      Unfinished c d (.nodeNameTaken n.name) c'
  /-- All nodes start. The first late cache whose name is registered is not created, nor are those
  behind it. -/
  | late {before rest : List LateCache} {late : LateCache} {ids : List MemberId} {c' : Cluster}
      (parts : d.lateCaches = before ++ late :: rest)
      (taken : c.registry.contains late.cache.name = true)
      (nodes : ∀ n ∈ d.nodes, ¬ c.Bears n.name)
      (first : ∀ late' ∈ before, c.registry.get? late'.cache.name = none)
      (applied : Applied c { d with lateCaches := before } ids c') :
      Unfinished c d (.cacheExists late.cache.name) c'

/-- A deployment that passes its check and keeps its names apart fails at a name of before. -/
theorem Agrees.unfinished (a : Agrees c none none) (l : Linked c) {d : Deployment}
    (check : d.check = .ok ()) (apart : d.Apart) {err : Fault}
    (h : c.apply d = (.error err, c')) : Unfinished c d err c' := by
  rcases a.apply_cases l check with ⟨ids, c₁, hok⟩ | ⟨err', c₁, herror, hstops⟩
  · rw [h] at hok
    cases hok
  · rw [h] at herror
    cases herror
    cases hstops with
    | node parts done taken =>
        exact .node parts (l.bears_of_parts apart.nodes parts done taken)
          (l.apart_of_apply done).2.nodes (a.applied l done)
    | late parts done taken =>
        have free := (l.apart_of_apply done).2
        exact .late parts (registered_of_parts apart parts done taken) free.nodes
          (fun late' hmem => free.lates _ (List.mem_map_of_mem hmem)) (a.applied l done)

end Cluster

namespace Session

/-- A deployment that fails because of its second node leaves the first. -/
theorem apply_leaves_node :
    let c := ((fresh id {}).after [.start { name := "b" }]).cluster
    let d : Deployment := { nodes := [{ name := "a" }, { name := "b" }] }
    d.check = .ok () ∧ (c.apply d).1 = .error (.nodeNameTaken "b") ∧
      c.roster.map Member.name = ["b"] ∧ (c.apply d).2.roster.map Member.name = ["b", "a"] :=
  ⟨by decide, by decide, by decide, by decide⟩

/-- **A deployment that fails leaves what it has done so far.** Whatever users have done before: a
deployment that does not pass its check changes nothing, and one that passes it and keeps its own
names apart succeeds exactly if the cluster has not given any of them away. Otherwise it stops at
the first that is given away, and what stands in front of it has been applied. -/
theorem unfinished_after {memberIds : Nat → MemberId} (distinct : Function.Injective memberIds)
    (publisher : Fanout) (cs : List Command) (d : Deployment) :
    let c := ((fresh memberIds publisher).after cs).cluster
    (∀ err, d.check = .error err → c.apply d = (.error err, c)) ∧
      (d.check = .ok () → d.Apart →
        ((∃ ids, (c.apply d).1 = .ok ids) ↔ c.Free d) ∧
          ∀ err, (c.apply d).1 = .error err → c.Unfinished d err (c.apply d).2) := by
  intro c
  have hsound := Sound.fresh distinct publisher
  have a : c.Agrees none none :=
    agrees_after cs hsound (Cluster.Agrees.empty memberIds publisher)
  have l : c.Linked := (hsound.after cs).sound.linked
  refine ⟨fun err check => ?_, fun check apart => ⟨?_, fun err herror => ?_⟩⟩
  · rw [Cluster.apply, check]
  · rw [a.apply_ok_iff l]
    exact ⟨fun h => h.2.2, fun free => ⟨check, apart, free⟩⟩
  · exact a.unfinished l check apart (Prod.ext herror rfl)

/-- The second late cache of a deployment is registered already. The node of the deployment stays,
and so does the first late cache. -/
theorem unfinished_after_create :
    let c := ((fresh id {}).after [.start { name := "b" }, .create 0 { name := "x" }]).cluster
    let d : Deployment :=
      { nodes := [{ name := "a" }]
        lateCaches := [{ creator := "a", cache := { name := "y" } },
          { creator := "a", cache := { name := "x" } }] }
    (c.apply d).1 = .error (.cacheExists "x") ∧
      c.Unfinished d (.cacheExists "x") (c.apply d).2 :=
  ⟨by decide, ((unfinished_after Function.injective_id {} _ _).2 (by decide)
    ⟨by decide, by decide, by decide⟩).2 _ (by decide)⟩

end Session

end NearCache
