import Mathlib.Tactic

/-! # Jobs and their deliveries

A worker takes one job at a time and hands over its items one by one; a new job
displaces the old one, finished or not.  The ledger lists the jobs, newest first,
each with the items handed over while it was the newest.
-/

namespace Library.Ledger

variable {Label Item : Type*}

structure Job (Label Item : Type*) where
  label : Label
  items : List Item
  delivered : List Item := []
  deriving DecidableEq, Repr

/-- All items were handed over, in order. -/
def Job.Whole (job : Job Label Item) : Prop := job.delivered = job.items

instance [DecidableEq Item] (job : Job Label Item) : Decidable job.Whole := by
  unfold Job.Whole; infer_instance

def accept (label : Label) (items : List Item) (jobs : List (Job Label Item)) :
    List (Job Label Item) := ⟨label, items, []⟩ :: jobs

/-- An item goes to the account of the newest job. -/
def deliver (item : Item) : List (Job Label Item) → List (Job Label Item)
  | [] => []
  | job :: jobs => { job with delivered := job.delivered ++ [item] } :: jobs

/-- The newest job is filed as `filed` says and has exactly these items left; the
older jobs are as `settled` says. -/
def Owes (remaining : List Item) (filed : Label → Prop) (settled : Job Label Item → Prop)
    (jobs : List (Job Label Item)) : Prop :=
  ∃ job older, jobs = job :: older ∧ job.items = job.delivered ++ remaining ∧ filed job.label ∧
    ∀ other ∈ older, settled other

variable {remaining : List Item} {filed filed' : Label → Prop}
  {settled settled' : Job Label Item → Prop} {jobs : List (Job Label Item)}

theorem owes_accept (label : Label) (items : List Item) (files : filed label)
    (older : ∀ job ∈ jobs, settled job) : Owes items filed settled (accept label items jobs) :=
  ⟨_, jobs, rfl, by simp, files, older⟩

theorem Owes.deliver {item : Item} (owes : Owes (item :: remaining) filed settled jobs) :
    Owes remaining filed settled (deliver item jobs) := by
  obtain ⟨job, older, rfl, items, files, rest⟩ := owes
  exact ⟨_, older, rfl, by simpa using items, files, rest⟩

theorem Owes.weaken (owes : Owes remaining filed settled jobs)
    (files : ∀ label, filed label → filed' label) (settles : ∀ job ∈ jobs.tail, settled' job) :
    Owes remaining filed' settled' jobs := by
  obtain ⟨job, older, rfl, items, newest, rest⟩ := owes
  exact ⟨job, older, rfl, items, files _ newest, settles⟩

/-- When nothing is left, the newest job is whole and settles like the others. -/
theorem Owes.done (owes : Owes [] filed settled jobs) (settles : ∀ job, job.Whole → settled job) :
    ∀ job ∈ jobs, settled job := by
  obtain ⟨job, older, rfl, items, _, rest⟩ := owes
  intro other member
  obtain rfl | member := List.mem_cons.mp member
  · exact settles other (by rw [Job.Whole, items, List.append_nil])
  · exact rest other member

/-! ## What was handed over in all -/

/-- The items of all jobs that were handed over, oldest job first. -/
def handed (jobs : List (Job Label Item)) : List Item := (jobs.reverse.map Job.delivered).flatten

theorem handed_accept (label : Label) (items : List Item) (jobs : List (Job Label Item)) :
    handed (accept label items jobs) = handed jobs := by
  simp [handed, accept]

theorem Owes.handed_deliver {item : Item} (owes : Owes (item :: remaining) filed settled jobs) :
    handed (Ledger.deliver item jobs) = handed jobs ++ [item] := by
  obtain ⟨job, older, rfl, -⟩ := owes
  simp [handed, Ledger.deliver]

/-- Of each job the first items were handed over. -/
def InOrder (jobs : List (Job Label Item)) : Prop := ∀ job ∈ jobs, job.delivered <+: job.items

theorem InOrder.accept (inOrder : InOrder jobs) (label : Label) (items : List Item) :
    InOrder (Ledger.accept label items jobs) :=
  List.forall_mem_cons.mpr ⟨List.nil_prefix, inOrder⟩

theorem InOrder.deliver {item : Item} (inOrder : InOrder jobs)
    (owes : Owes (item :: remaining) filed settled jobs) : InOrder (Ledger.deliver item jobs) := by
  obtain ⟨job, older, rfl, items, -⟩ := owes
  refine List.forall_mem_cons.mpr ⟨⟨remaining, ?_⟩, (List.forall_mem_cons.mp inOrder).2⟩
  rw [items, List.append_assoc, List.singleton_append]

end Library.Ledger
