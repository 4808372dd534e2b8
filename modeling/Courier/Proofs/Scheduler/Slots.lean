/-
# Courier.Proofs.Scheduler.Slots -- every permit is somewhere

A scheduler has as many permits as it may have workers at once. Each is free, or in the hand of the
dispatch loop, or with a worker from its claim until it is gone. `State.step_crew` says once what a move
does to the workers and to the permits, and `State.slots_conserved` follows for every run: no permit is
lost and none is made. A task in the running set has a worker, whoever else enters and leaves it, so the
running set is bounded as well, until the loop gives its workers up at the end of a shutdown: a worker
that is torn off returns its permit and leaves its entry behind.

Nothing is assumed about the ids of the submitted tasks. What is counted here are workers, and these are
numbered by the scheduler itself.
-/
import Courier.Proofs.Scheduler.Ownership

namespace Courier.Scheduler

variable {c : Setup}

/-- What a roll call says of a worker: its number, and whether the loop has given it up. -/
def Worker.badge (w : Worker) : Nat × Bool := (w.seq, w.aborted)

/-- Without a new worker there is no new entry in the running set. -/
theorem ActsAside.entries {E : Edits} {l l' : Ledger} (aside : ActsAside c E l l') :
    (l'.running.map Running.seq).Sublist (l.running.map Running.seq) := by
  induction aside with
  | refl => exact .refl _
  | tail _ act ih =>
    rcases act.1.entries with ⟨hsub, -⟩ | ⟨kept, -, -, hnext⟩
    · exact hsub.trans ih
    · rcases act.1.seqs with ⟨-, same⟩ | ⟨happ, -⟩
      · omega
      · rw [act.2] at happ
        simpa using congrArg List.length happ

/-- Does the loop give its workers up? It does when the shutdown timeout is over. -/
def Move.givesUp (s : State) : Move → Bool
  | .loop .timeout => s.loop = .draining
  | _ => false

namespace State

variable {s t : State} {torn : Prop}

/-- The permit in the hand of the dispatch loop. -/
def held (s : State) : Nat := s.loop.holdsPermit.toNat

/-! ## What a move does -/

/-- What a move does to the workers and to the permits; `torn` is what it takes to tear workers off. -/
inductive Crew (torn : Prop) (s t : State) : Prop
  | same (badges : t.workers.map Worker.badge = s.workers.map Worker.badge)
      (next : t.nextSeq = s.nextSeq) (permits : t.free + t.held = s.free + s.held)
  /-- The permit of the loop goes to a new worker. -/
  | hired (badges : t.workers.map Worker.badge = s.workers.map Worker.badge ++ [(s.nextSeq, false)])
      (permits : t.free + t.held + 1 = s.free + s.held)
  /-- A worker is gone, and its permit is free. -/
  | left (w : Worker) (here : w ∈ s.workers) (ended : w.phase = .effects [] ∨ w.aborted = true)
      (workers : t.workers = s.workers.filter fun x => x.seq ≠ w.seq)
      (next : t.nextSeq = s.nextSeq) (permits : t.free + t.held = s.free + s.held + 1)
  /-- The shutdown has taken too long. -/
  | givenUp (reason : torn)
      (workers : t.workers =
        (s.workers.filter fun w => !w.phase.waits).map fun w => { w with aborted := true })
      (permits : t.free + t.held = s.free + s.held + (s.workers.filter fun w => w.phase.waits).length)

theorem Crew.of_workers (workers : t.workers = s.workers) (next : t.nextSeq = s.nextSeq)
    (permits : t.free + t.held = s.free + s.held) : Crew torn s t :=
  .same (congrArg (List.map Worker.badge) workers) next permits

/-- The workers and the loop, with what they have. -/
def staff (s : State) : List Worker × Nat × Nat × Loop := (s.workers, s.nextSeq, s.free, s.loop)

theorem staff_eq_iff : t.staff = s.staff ↔
    t.workers = s.workers ∧ t.nextSeq = s.nextSeq ∧ t.free = s.free ∧ t.loop = s.loop := by
  simp [staff]

/-- What is done to them by anybody but the loop: a worker may be gone. -/
inductive Apart (s t : State) : Prop
  | same (badges : t.workers.map Worker.badge = s.workers.map Worker.badge) (loop : t.loop = s.loop)
      (next : t.nextSeq = s.nextSeq) (free : t.free = s.free)
  | left (w : Worker) (here : w ∈ s.workers) (ended : w.phase = .effects [] ∨ w.aborted = true)
      (workers : t.workers = s.workers.filter fun x => x.seq ≠ w.seq) (loop : t.loop = s.loop)
      (next : t.nextSeq = s.nextSeq) (free : t.free = s.free + 1)

theorem Apart.crew (apart : Apart s t) : Crew torn s t := by
  cases apart with
  | same badges loop next free =>
    refine .same badges next ?_
    rw [free, held, held, loop]
  | left w here ended workers loop next free =>
    refine .left w here ended workers next ?_
    rw [free, held, held, loop]
    omega

/-- The loop stands where it stood, and no claim is made. -/
theorem Apart.loop_next (apart : Apart s t) : t.loop = s.loop ∧ t.nextSeq = s.nextSeq := by
  cases apart with
  | same badges loop next free => exact ⟨loop, next⟩
  | left w here ended workers loop next free => exact ⟨loop, next⟩

theorem Apart.of_staff (same : t.staff = s.staff) : Apart s t := by
  obtain ⟨workers, next, free, loop⟩ := staff_eq_iff.mp same
  exact .same (congrArg (List.map Worker.badge) workers) loop next free

theorem Crew.of_staff (same : t.staff = s.staff) : Crew torn s t := (Apart.of_staff same).crew

theorem staff_writeStatus (s : State) (id : String) (status : Status) (error : String) :
    (s.writeStatus id status error).2.staff = s.staff := by
  rcases s.writeStatus_cases id status error with ⟨disk, hw, -⟩ | ⟨e, disk, hw, -⟩ <;> rw [hw] <;> rfl

theorem staff_submit (s : State) (id kind : String) (payload : Bytes) (title : String) :
    (s.submit c id kind payload title).2.staff = s.staff ∧
      (s.submit c id kind payload title).2.running = s.running := by
  rcases s.submit_cases (c := c) id kind payload title with ⟨e, disk, -, h⟩ | ⟨disk, -, h⟩ <;> rw [h] <;>
    exact ⟨rfl, rfl⟩

theorem staff_recover (s : State) : (s.recover c).2.staff = s.staff := by
  obtain ⟨disk, queue, cancelling, calls, history, h⟩ := s.recover_touches (c := c)
  rw [h]
  rfl

theorem cancel_apart (s : State) (id : String) : Apart s (s.cancel id).2 := by
  rcases s.cancel_cases id with ⟨e, disk, -, h⟩ | ⟨disk, -, -, h⟩ | ⟨r, -, -, h⟩ <;> rw [h]
  · exact .of_staff rfl
  · exact .of_staff rfl
  · rcases s.tellRunning_cases r with ⟨-, ht⟩ | ⟨-, ht⟩ <;> rw [ht]
    · exact .of_staff rfl
    · refine .same ?_ rfl rfl rfl
      show (s.workers.map _).map Worker.badge = _
      rw [List.map_map]
      apply List.map_congr_left
      intro w _
      simp only [Function.comp]
      split <;> rfl

/-- A claim that succeeds hires a worker; the permit is still in the hand of the loop. -/
theorem claimNext_staff (s : State) :
    (s.claimNext.1 = .task ∧
      ∃ w : Worker, w.badge = (s.nextSeq, false) ∧ s.claimNext.2.workers = s.workers ++ [w] ∧
        s.claimNext.2.free = s.free) ∨
      s.claimNext.1 ≠ .task ∧ s.claimNext.2.staff = s.staff := by
  unfold claimNext
  split
  · exact Or.inr ⟨nofun, rfl⟩
  · rename_i task rest _
    have := s.staff_writeStatus task.id .running ""
    rcases s.writeStatus_cases task.id .running "" with ⟨disk, hw, -⟩ | ⟨e, disk, hw, -⟩ <;> rw [hw]
    · exact Or.inl ⟨rfl, _, rfl, rfl, rfl⟩
    · exact Or.inr ⟨nofun, rfl⟩

theorem stepLoop_crew (s : State) (turn : Turn) :
    Crew ((Move.loop turn).givesUp s = true) s (s.stepLoop turn) := by
  have held_eq {l : Loop} (h : s.loop = l) : s.held = l.holdsPermit.toNat := by rw [held, h]
  -- One bullet for each case of the definition, in its order.
  unfold stepLoop
  split
  · rename_i hloop
    refine .of_workers rfl rfl ?_
    rw [held_eq hloop, held]
    show s.free + (if s.link = .connected then Loop.acquiring else .paused).holdsPermit.toNat = _
    split <;> rfl
  · rename_i hloop
    split
    · exact .of_workers rfl rfl (by rw [held_eq hloop]; rfl)
    · exact .of_staff rfl
  · rename_i hloop
    split
    · rename_i hfree
      refine .of_workers rfl rfl ?_
      rw [held_eq hloop]
      show s.free - 1 + 1 = s.free
      omega
    · exact .of_staff rfl
  · rename_i hloop
    split <;> exact .of_workers rfl rfl (by rw [held_eq hloop]; rfl)
  · rename_i hloop
    rcases s.claimNext_staff with ⟨hclaim, w, hbadge, hworkers, hfree⟩ | ⟨hclaim, hstaff⟩
    · generalize s.claimNext = r at hclaim hworkers hfree
      obtain ⟨_, t⟩ := r
      subst hclaim
      refine .hired ?_ ?_
      · show t.workers.map Worker.badge = _
        rw [show t.workers = _ from hworkers, List.map_append, List.map_singleton, hbadge]
      · rw [held_eq hloop]
        show t.free + 0 + 1 = s.free + 1
        rw [show t.free = s.free from hfree]
    · generalize s.claimNext = r at hclaim hstaff
      obtain ⟨result, t⟩ := r
      obtain ⟨hworkers, hnext, hfree, -⟩ := staff_eq_iff.mp hstaff
      cases result with
      | task => exact absurd rfl hclaim
      | empty | storeFailed =>
        refine .of_workers hworkers hnext ?_
        rw [held_eq hloop]
        show t.free + 1 + 0 = s.free + 1
        rw [hfree]
  · rename_i hloop
    split
    · exact .of_workers rfl rfl (by rw [held_eq hloop]; rfl)
    · exact .of_staff rfl
  · rename_i hloop
    split
    · exact .of_workers rfl rfl (by rw [held_eq hloop]; rfl)
    · exact .of_staff rfl
  · rename_i hloop
    exact .of_workers rfl rfl (by rw [held_eq hloop]; rfl)
  iterate 4
    · rename_i hloop
      split
      · exact .of_workers rfl rfl (by rw [held_eq hloop]; rfl)
      · exact .of_staff rfl
  · rename_i hloop
    exact .of_workers rfl rfl (by rw [held_eq hloop]; rfl)
  · rename_i hloop
    refine .same ?_ rfl (by rw [held_eq hloop]; rfl)
    show (s.workers.map fun w => { w with told := true }).map Worker.badge = _
    rw [List.map_map]
    rfl
  · rename_i hloop
    split
    · exact .of_workers rfl rfl (by rw [held_eq hloop]; rfl)
    · exact .of_staff rfl
  · rename_i hloop
    refine .givenUp (decide_eq_true hloop) rfl ?_
    rw [held_eq hloop]
    rfl
  · exact .of_staff rfl

/-- A worker that goes on keeps its number. -/
theorem Apart.of_setWorker (same : t.staff = s.staff) (seq : Nat) {f : Worker → Worker}
    (badge : ∀ w, (f w).badge = w.badge) : Apart s (t.setWorker seq f) := by
  obtain ⟨workers, next, free, loop⟩ := staff_eq_iff.mp same
  refine .same ?_ loop next free
  show (t.workers.map _).map Worker.badge = _
  rw [workers, List.map_map]
  apply List.map_congr_left
  intro w _
  simp only [Function.comp]
  split
  · exact badge w
  · rfl

theorem Apart.of_setPhase (same : t.staff = s.staff) (seq : Nat) (p : Phase) :
    Apart s (t.setPhase seq p) :=
  .of_setWorker same seq fun _ => rfl

/-- Only the last effect and a torn-off worker cost the crew somebody. -/
theorem Worked.apart {w : Worker} {answer : Answer} (here : w ∈ s.workers)
    (worked : Worked c s w answer t) : Apart s t := by
  cases worked with
  | start phase => exact .of_setWorker (by rfl) _ fun _ => rfl
  | effect e es phase =>
    refine .of_setPhase ?_ _ _
    cases e <;> rfl
  | vanish ended => exact .left w here (ended.imp_right And.left) rfl rfl rfl rfl
  | _ => exact .of_setPhase (by rfl) _ _

theorem stepWorker_apart (s : State) (seq : Nat) (answer : Answer) :
    Apart s (s.stepWorker c seq answer) := by
  rcases s.stepWorker_cases (c := c) seq answer with same | ⟨w, here, -, worked⟩
  · exact same.symm ▸ .of_staff rfl
  · exact worked.apart here

/-- Whatever is not a turn of the loop, nor its start, is done apart from it. -/
theorem step_apart (s : State) {m : Move} (turns : ∀ turn, m ≠ .loop turn) (starts : m ≠ .start) :
    Apart s (s.step c m) := by
  cases m with
  | submit id kind payload title => exact .of_staff (s.staff_submit id kind payload title).1
  | cancel id => exact s.cancel_apart id
  | recover => exact .of_staff s.staff_recover
  | resume call =>
    simp only [step, resume]
    split
    · exact .of_staff rfl
    · exact .of_staff rfl
    · rename_i e es _
      refine .of_staff ?_
      cases e <;> rfl
  | start => exact absurd rfl starts
  | loop turn => exact absurd rfl (turns turn)
  | worker seq answer => exact s.stepWorker_apart seq answer
  | link link =>
    simp only [step, setLink]
    split <;> exact .of_staff rfl
  | putRecord r =>
    simp only [step]
    split <;> exact .of_staff rfl
  | shutdown | unwatch | clock _ | outage _ _ | heal | deleteRecord _ => exact .of_staff rfl

theorem step_crew (s : State) (m : Move) : Crew (m.givesUp s = true) s (s.step c m) := by
  by_cases turns : ∃ turn, m = .loop turn
  · obtain ⟨turn, rfl⟩ := turns
    exact s.stepLoop_crew turn
  · by_cases starts : m = .start
    · subst starts
      simp only [step, start]
      split
      · rename_i hloop
        refine .of_workers rfl rfl ?_
        rw [held, held, hloop]
        rfl
      · exact .of_staff rfl
    · exact (s.step_apart (fun turn h => turns ⟨turn, h⟩) starts).crew

/-! ## Numbers -/

/-- Workers are numbered by their claims, whatever the ids of the submitted tasks are. -/
theorem numbered_step (h : s.ledger.Numbered) (m : Move) : (s.step c m).ledger.Numbered := by
  cases m with
  | submit id kind payload title =>
    obtain ⟨same, running⟩ := s.staff_submit (c := c) id kind payload title
    obtain ⟨workers, next, -⟩ := staff_eq_iff.mp same
    exact h.of_eq workers running next
  | _ => exact h.acts (step_acts (act_of_fresh trivial))

/-- Entries of the running set go, and that of a claim comes with its number. -/
theorem entries_step (s : State) (m : Move) :
    ((s.step c m).running.map Running.seq).Sublist (s.running.map Running.seq) ∨
      ∃ kept, kept.Sublist (s.running.map Running.seq) ∧
        (s.step c m).running.map Running.seq = kept ++ [s.nextSeq] ∧
        (s.step c m).nextSeq = s.nextSeq + 1 := by
  have still (same : (s.step c m).running = s.running) :
      ((s.step c m).running.map Running.seq).Sublist (s.running.map Running.seq) :=
    same ▸ List.Sublist.refl _
  rcases m.fresh_or_submit s with fresh | ⟨id, kind, payload, title, rfl⟩
  · rcases act_of_fresh (c := c) fresh with rfl | act
    · exact Or.inl (s.recover_acts (c := c) (E := .any)).entries
    · rcases (Relation.reflGen_iff _ _ _).mp act with same | act
      · exact Or.inl (still (congrArg Ledger.running same))
      · exact act.entries.imp And.left id
  · exact Or.inl (still (s.staff_submit id kind payload title).2)

/-! ## The invariants -/

/-- Every permit is somewhere, and the running set is in the order of the claims. -/
structure Conserved (c : Setup) (s : State) : Prop where
  numbered : s.ledger.Numbered
  inOrder : (s.running.map Running.seq).Pairwise (· < ·)
  permits : s.workers.length + s.free + s.held = c.slots

theorem Conserved.inOrder_step (h : s.Conserved c) (m : Move) :
    ((s.step c m).running.map Running.seq).Pairwise (· < ·) := by
  rcases s.entries_step (c := c) m with hsub | ⟨kept, hsub, happ, -⟩
  · exact h.inOrder.sublist hsub
  · rw [happ]
    refine List.pairwise_append.mpr ⟨h.inOrder.sublist hsub, List.pairwise_singleton _ _, ?_⟩
    intro n hn k hk
    obtain ⟨r, hr, rfl⟩ := List.mem_map.mp (hsub.subset hn)
    rw [List.mem_singleton.mp hk]
    exact h.numbered.entries_lt r hr

theorem Conserved.step (h : s.Conserved c) (m : Move) : (s.step c m).Conserved c := by
  refine ⟨numbered_step h.numbered m, h.inOrder_step m, ?_⟩
  have before := h.permits
  cases s.step_crew (c := c) m with
  | same badges next permits =>
    have hlength := congrArg List.length badges
    simp only [List.length_map] at hlength
    omega
  | hired badges permits =>
    have hlength := congrArg List.length badges
    simp only [List.length_map, List.length_append, List.length_singleton] at hlength
    omega
  | left w here ended workers next permits =>
    -- Numbers occur once, so nobody else goes with the worker.
    have nodup : (s.workers.map Worker.seq).Nodup := h.numbered.seqs_nodup
    have hseqs : (s.workers.filter fun x => x.seq ≠ w.seq).map Worker.seq =
        (s.workers.map Worker.seq).erase w.seq := by
      rw [nodup.erase_eq_filter, List.filter_map]
      refine congrArg (List.map Worker.seq) (List.filter_congr fun x _ => ?_)
      by_cases hx : x.seq = w.seq <;> simp [hx]
    have hlength := congrArg List.length hseqs
    rw [List.length_map, List.length_erase_of_mem (List.mem_map_of_mem here), List.length_map] at hlength
    have := List.length_pos_of_mem here
    rw [workers]
    omega
  | givenUp reason workers permits =>
    have hlength := List.length_eq_length_filter_add (l := s.workers) fun w => w.phase.waits
    rw [workers, List.length_map]
    omega

theorem Conserved.run (h : s.Conserved c) (ms : List Move) : (s.run c ms).Conserved c := by
  induction ms generalizing s with
  | nil => exact h
  | cons m ms ih => exact ih (h.step m)

/-- Every entry of the running set has its worker, and the loop has given nobody up. -/
structure Manned (s : State) : Prop where
  entries : ∀ r ∈ s.running, (r.seq, false) ∈ s.workers.map Worker.badge
  kept : ∀ w ∈ s.workers, w.aborted = false

/-- A worker that goes has left the running set before. -/
theorem Manned.step (h : s.Manned) (numbered : s.ledger.Numbered) {m : Move}
    (stays : m.givesUp s = false) : (s.step c m).Manned := by
  have old {n : Nat} (hn : n ∈ s.running.map Running.seq) : (n, false) ∈ s.workers.map Worker.badge := by
    obtain ⟨r, hr, rfl⟩ := List.mem_map.mp hn
    exact h.entries r hr
  have kept : ∀ b ∈ s.workers.map Worker.badge, b.2 = false := List.forall_mem_map.mpr h.kept
  have entry {r : Running} (hr : r ∈ (s.step c m).running) :
      r.seq ∈ s.running.map Running.seq ∨
        r.seq = s.nextSeq ∧ (s.step c m).nextSeq = s.nextSeq + 1 := by
    have hseq := List.mem_map_of_mem (f := Running.seq) hr
    rcases s.entries_step (c := c) m with hsub | ⟨kept, hsub, happ, hnext⟩
    · exact Or.inl (hsub.subset hseq)
    · rw [happ] at hseq
      rcases List.mem_append.mp hseq with hseq | hseq
      · exact Or.inl (hsub.subset hseq)
      · exact Or.inr ⟨List.mem_singleton.mp hseq, hnext⟩
  cases s.step_crew (c := c) m with
  | same badges next permits =>
    refine ⟨?_, ?_⟩
    · intro r hr
      rw [badges]
      rcases entry hr with hr | ⟨-, more⟩
      · exact old hr
      · omega
    · rw [← badges] at kept
      exact List.forall_mem_map.mp kept
  | hired badges permits =>
    refine ⟨?_, ?_⟩
    · intro r hr
      rw [badges]
      rcases entry hr with hr | ⟨new, -⟩
      · exact List.mem_append_left _ (old hr)
      · rw [new]
        exact List.mem_append_right _ List.mem_cons_self
    · have kept' : ∀ b ∈ (s.step c m).workers.map Worker.badge, b.2 = false := by
        intro b hb
        rw [badges] at hb
        rcases List.mem_append.mp hb with hb | hb
        · exact kept b hb
        · rw [List.mem_singleton.mp hb]
      exact List.forall_mem_map.mp kept'
  | left w here ended workers next permits =>
    have done : w.phase = .effects [] := ended.resolve_right (by simp [h.kept w here])
    refine ⟨?_, ?_⟩
    · intro r hr
      rcases entry hr with hr | ⟨-, more⟩
      · obtain ⟨x, hx, hseq⟩ := List.mem_map.mp hr
        obtain ⟨v, hv, hbadge⟩ := List.mem_map.mp (old hr)
        refine List.mem_map.mpr ⟨v, ?_, hbadge⟩
        rw [workers]
        refine List.mem_filter.mpr ⟨hv, ?_⟩
        rw [decide_eq_true_eq]
        intro same
        have hxw : x.seq = w.seq := by
          rw [hseq, ← same]
          exact (congrArg Prod.fst hbadge).symm
        have holds := (numbered.claimant x hx w here hxw).2
        rw [done] at holds
        cases holds
      · omega
    · rw [workers]
      exact fun v hv => h.kept v (List.mem_filter.mp hv).1
  | givenUp reason workers permits => simp [stays] at reason

/-- As many entries of the running set as workers, or fewer. -/
theorem Manned.length_le (h : s.Manned) (sorted : (s.running.map Running.seq).Nodup) :
    s.running.length ≤ s.workers.length := by
  have sub : s.running.map Running.seq ⊆ s.workers.map Worker.seq := by
    intro n hn
    obtain ⟨r, hr, rfl⟩ := List.mem_map.mp hn
    obtain ⟨w, hw, hbadge⟩ := List.mem_map.mp (h.entries r hr)
    exact List.mem_map.mpr ⟨w, hw, congrArg Prod.fst hbadge⟩
  simpa using (List.subperm_of_subset sorted sub).length_le

/-! ## Runs -/

theorem Conserved.init (c : Setup) (disk : Disk) : (State.init c disk).Conserved c where
  numbered := .init c disk
  inOrder := List.Pairwise.nil
  permits := Nat.zero_add c.slots

theorem manned_of_patient (h : s.Conserved c) (manned : s.Manned) {ms : List Move}
    (patient : s.Follows c (fun s m => m.givesUp s = false) ms) : (s.run c ms).Manned := by
  induction ms generalizing s with
  | nil => exact manned
  | cons m ms ih =>
    obtain ⟨stays, patient⟩ := patient
    exact ih (h.step m) (manned.step h.numbered stays) patient

/-- Permits are conserved, over every run whatsoever: free ones, the one in the hand of the loop and those
of the workers add up to the slots. As long as the loop has given no worker up, every entry of the running
set has a worker of its own, and so there are no more of them than workers, and no more than slots. -/
theorem slots_conserved (c : Setup) (disk : Disk) (ms : List Move) :
    let s := (State.init c disk).run c ms
    s.workers.length + s.free + s.loop.holdsPermit.toNat = max c.workers 1 ∧
      ((State.init c disk).Follows c (fun s m => m.givesUp s = false) ms →
        (s.running.map Running.seq).Nodup ∧
          (∀ r ∈ s.running, ∃ w ∈ s.workers, w.seq = r.seq ∧ w.task.id = r.id ∧ w.phase.holds = true) ∧
          s.running.length ≤ s.workers.length ∧ s.running.length ≤ max c.workers 1) := by
  intro s
  have conserved : s.Conserved c := (Conserved.init c disk).run ms
  have permits : s.workers.length + s.free + s.loop.holdsPermit.toNat = max c.workers 1 :=
    conserved.permits
  refine ⟨permits, fun patient => ?_⟩
  have manned : s.Manned :=
    manned_of_patient (.init c disk) ⟨by simp [State.init], by simp [State.init]⟩ patient
  have nodup : (s.running.map Running.seq).Nodup := conserved.inOrder.imp Nat.ne_of_lt
  have bound := manned.length_le nodup
  refine ⟨nodup, ?_, bound, by omega⟩
  intro r hr
  obtain ⟨w, hw, hbadge⟩ := List.mem_map.mp (manned.entries r hr)
  have hseq : w.seq = r.seq := congrArg Prod.fst hbadge
  obtain ⟨hid, holds⟩ := conserved.numbered.claimant r hr w hw hseq.symm
  exact ⟨w, hw, hseq, hid.symm, holds⟩

/-- Two slots. A claim is refused, a permit is returned because the link is down, two tasks are claimed,
and the first one has failed while its worker still has to report it. -/
theorem slots_conserved_two_workers :
    let c := { Setup.small 0 with workers := 2 }
    let ms : List Move :=
      [.submit "a" "mem" [] "film", .submit "b" "mem" [] "song", .outage (.update .running) (.times 1),
        .start, .loop .go, .loop .permit, .loop .go, .loop .go, .loop .pauseOver, .loop .go, .loop .permit,
        .link .reconnecting, .loop .go, .link .connected, .loop .go, .loop .permit, .loop .go, .loop .go,
        .loop .go, .loop .permit, .loop .go, .loop .go, .worker 0 .go, .worker 0 .go, .worker 0 .go]
    let s := (State.init c {}).run c ms
    (State.init c {}).Follows c (fun s m => m.givesUp s = false) ms ∧
      s.ledger.runningIds = ["b"] ∧ s.workers.length = 2 ∧ s.free = 0 ∧
      s.running.length ≤ s.workers.length := by
  refine ⟨by decide +kernel, by decide +kernel, by decide +kernel, by decide +kernel, ?_⟩
  exact ((slots_conserved _ _ _).2 (by decide +kernel)).2.2.1

end State

end Courier.Scheduler
