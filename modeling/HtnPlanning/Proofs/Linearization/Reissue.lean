import HtnPlanning.Proofs.Linearization.Renaming
import HtnPlanning.Proofs.Network.Spreading

namespace HtnPlanning

def Task.identified (f : TaskId → TaskId) (t : Task) : Task :=
  { t with id := f t.id }

theorem Task.identified_injOn {f : TaskId → TaskId} {ids : Set TaskId} (injective : Set.InjOn f ids)
    {t u : Task} (inT : t.id ∈ ids) (inU : u.id ∈ ids) (same : t.identified f = u.identified f) :
    t = u := by
  have ids : t.id = u.id := injective inT inU (congrArg Task.id same)
  cases t
  cases u
  cases ids
  simpa [identified] using same

namespace Network

variable {n n' : Network} {f : TaskId → TaskId} {supply : Supply} {id p q : TaskId}

namespace Renamed

theorem mem_taskList (renamed : Renamed f n n') (formed : n.WellFormed) {u : Task} :
    u ∈ n'.taskList ↔ ∃ t ∈ n.taskList, t.identified f = u := by
  simp only [Network.mem_taskList, renamed.tasks]
  constructor
  · rintro ⟨-, source, t, found, rfl, rfl⟩
    exact ⟨t, ⟨source, found⟩, by rw [Task.identified, formed.keyed found]⟩
  · rintro ⟨t, ⟨source, found⟩, rfl⟩
    exact ⟨f source, source, t, found, rfl, by rw [Task.identified, formed.keyed found]⟩

theorem images (renamed : Renamed f n n') (rises : Rises f {id | n.contains id = true})
    (formed : n.WellFormed) (formed' : n'.WellFormed) : n.Images f (Task.identified f) n' where
  rises := rises
  id _ := rfl
  tasks := by
    have distinct : (n.taskList.map (Task.identified f)).Nodup :=
      formed.nodup_taskList.map_on fun t inT u inU =>
        Task.identified_injOn renamed.injective (formed.contains_of_mem inT)
          (formed.contains_of_mem inU)
    refine (List.perm_ext_iff_of_nodup formed'.nodup_taskList distinct).mpr fun u => ?_
    rw [renamed.mem_taskList formed, List.mem_map]
  orders _ _ := orders_renamed (fun _ => rfl) renamed.constraints

end Renamed

-- At its end the counter starts again, so the second task comes before the first.
example :
    let _ : Counters := .machine
    let n := ofLists [(Task.newPrimitive "stay" [] ⟨2, 1⟩).1, (Task.newPrimitive "go" [] ⟨3, 1⟩).1] []
    (n.reissued ⟨2 ^ 64 - 1, 1⟩).1.taskList.map (fun t => (t.id.number, t.name)) =
      [(1, "go"), (2 ^ 64 - 1, "stay")] := by
  decide +kernel

end Network

end HtnPlanning
