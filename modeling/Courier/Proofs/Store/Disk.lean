/-
# Courier.Proofs.Store.Disk -- operations on a disk that may refuse them

An operation that is refused leaves the store as it was, and one that is carried out leaves what the store
makes of it; nothing else that a disk does matters to its users. On a disk that refuses nothing
(`Disk.Accepting`) the store alone decides, and the disk goes on refusing nothing.
-/
import Courier.Proofs.Store.Status

namespace Courier.Disk

/-! ## Operations and their refusal -/

/-- A write is carried out, or the store stays as it was. -/
theorem write_cases (d : Disk) (op : Operation) (f : Store → Except Store.Error Store) :
    (∃ disk, d.write op f = (.ok (), disk) ∧ f d.store = .ok disk.store) ∨
      ∃ e disk, d.write op f = (.error e, disk) ∧ disk.store = d.store := by
  cases h : (d.write op f).1 with
  | ok u => exact Or.inl ⟨_, Prod.ext h rfl, store_write_of_ok h⟩
  | error e => exact Or.inr ⟨e, _, Prod.ext h rfl, store_write_of_error h⟩

/-- Only an unknown id is reported as unknown. -/
theorem notMem_ids_of_notFound {d disk : Disk} {id x : String} {status : Status} {error : String}
    {now : Int} (h : d.updateStatus id status error now = (.error (.notFound x), disk)) :
    id ∉ d.store.ids := by
  intro hid
  obtain ⟨t, ht⟩ := Store.updateStatus_of_mem hid status error now
  unfold updateStatus write at h
  simp only [store_consult, ht] at h
  split at h <;> cases h

theorem store_listPending (d : Disk) : d.listPending.2.store = d.store := by
  unfold listPending
  simp only
  split <;> simp

/-- A listing that succeeds is the store's own. -/
theorem listPending_eq_ok {d disk : Disk} {records : List Record}
    (h : d.listPending = (.ok records, disk)) : d.store.listPending = .ok records := by
  unfold listPending at h
  simp only [store_consult] at h
  split at h
  · cases h
  · exact congrArg Prod.fst h

/-! ## Disks that refuse nothing -/

theorem write_of_healthy {d : Disk} (healthy : d.outages = []) {op : Operation}
    {f : Store → Except Store.Error Store} {store : Store} (h : f d.store = .ok store) :
    d.write op f = (.ok (), { d with store }) := by
  have consulted : d.consult op = (false, d) := by simp [consult, healthy]
  simp [write, consulted, h]

theorem listPending_of_healthy {d : Disk} (healthy : d.outages = []) :
    d.listPending = (d.store.listPending, d) := by
  have consulted : d.consult .listPending = (false, d) := by simp [consult, healthy]
  simp [listPending, consulted]

/-- No operation is refused, now or later. -/
def Accepting (d : Disk) : Prop := ∀ p ∈ d.outages, true ∉ p.2.next ∧ p.2.rest = false

instance (d : Disk) : Decidable d.Accepting :=
  inferInstanceAs (Decidable (∀ p ∈ d.outages, true ∉ p.2.next ∧ p.2.rest = false))

theorem Accepting.consult {d : Disk} (h : d.Accepting) (op : Operation) :
    (d.consult op).1 = false ∧ (d.consult op).2.Accepting := by
  unfold Disk.consult
  split
  · exact ⟨rfl, h⟩
  · rename_i o hlookup
    obtain ⟨before, after, hsplit, -⟩ := List.lookup_eq_some_iff.mp hlookup
    obtain ⟨next, rest⟩ := h (op, o) (hsplit ▸ by simp)
    have taken : o.take.1 = false ∧ true ∉ o.take.2.next ∧ o.take.2.rest = false := by
      unfold Outage.take
      split
      · exact ⟨rest, next, rest⟩
      · rename_i verdict later hnext
        rw [hnext, List.mem_cons, not_or] at next
        exact ⟨by simpa using Ne.symm next.1, next.2, rest⟩
    refine ⟨taken.1, ?_⟩
    intro p hp
    rcases List.mem_cons.mp hp with rfl | hp
    · exact taken.2
    · exact h p (List.mem_filter.mp hp).1

theorem Accepting.write {d : Disk} (h : d.Accepting) (op : Operation)
    {f : Store → Except Store.Error Store} {store : Store} (accepted : f d.store = .ok store) :
    ∃ disk, d.write op f = (.ok (), disk) ∧ disk.store = store ∧ disk.Accepting := by
  obtain ⟨verdict, accepting⟩ := h.consult op
  unfold Disk.write
  simp only [verdict, store_consult, accepted]
  exact ⟨_, rfl, rfl, accepting⟩

end Courier.Disk
