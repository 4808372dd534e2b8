/-
# Courier.Proofs.Scheduler.Rollback -- what becomes of the output of a cancelled attempt

A worker decides about a rollback at one point, right after its storage has returned. It can come to take
its attempt for cancelled later than that: when it looks at the stop signal once more with the result in its
hand, and when the task is about to go back to the queue.

What concerns the output is read off the states of a run: `State.deeds` has what a worker did, in order.
`Tale` says for every phase what has been done by then. From it `State.cancelled_rolled_back_iff` has when the
output of a cancelled attempt is rolled back, and that it stays where it is otherwise.
-/
import Courier.Proofs.Scheduler.Interruption

namespace Courier.Scheduler

variable {c : Setup} {E : Edits} {l l' : Ledger} {s : State} {u : Bool}

/-! ## Deeds -/

/-- What an attempt does that concerns its output. -/
inductive Deed where
  /-- The storage begins to store the stream. Can it remove a partial output? -/
  | put (destination : String) (undoable : Bool)
  /-- The storage has returned. -/
  | returned
  /-- The worker looks whether it was stopped, to decide about the rollback. Was it? -/
  | looked (stopped : Bool)
  /-- The storage removes the output. Is the task in the running set meanwhile? -/
  | rolledBack (destination : String) (running : Bool)
  /-- The worker takes its attempt for cancelled. -/
  | cancelled
  /-- The attempt has failed and is to be repeated, and the task is cancelled on its way back to the queue. -/
  | cancelledLate
deriving DecidableEq, Repr

def Deed.isRollback (destination : String) : Deed → Bool
  | .rolledBack x _ => x = destination
  | _ => false

/-- The output was rolled back exactly once, after its storage had returned and before the task left the
running set. -/
structure Deed.RolledBack (destination : String) (ds : List Deed) : Prop where
  once : ds.filter (Deed.isRollback destination) = [.rolledBack destination true]
  after : [.put destination true, .returned, .rolledBack destination true].Sublist ds

instance (destination : String) (ds : List Deed) : Decidable (Deed.RolledBack destination ds) :=
  decidable_of_iff (_ ∧ _) ⟨fun h => ⟨h.1, h.2⟩, fun h => ⟨h.once, h.after⟩⟩

/-- What the history shows of it. -/
def Deed.noted? (seq : Nat) : Deed → Option Happening
  | .put d _ => some (.put seq d)
  | .rolledBack d _ => some (.rolledBack seq d)
  | _ => none

/-- Is this what the worker of this number has its storage do? -/
def Happening.isStorageOf (seq : Nat) : Happening → Bool
  | .put n _ | .rolledBack n _ => n = seq
  | _ => false

/-- What a worker has done that goes from one phase to another. When it looks whether it was stopped it finds its
stop signal, or a storage that has failed as cancelled. -/
def Phase.deeds (undoable told running : Bool) : Phase → Phase → List Deed
  | .fetching t, .storing _ => [.put t.destination undoable]
  | .storing _, .stored .. => [.returned]
  | .stored _ result, .rollingBack _ | .stored _ result, .ended _ => [.looked (told || saysStopped result)]
  | .rollingBack t, .ended _ => [.rolledBack t.destination running]
  | .ended _, .stopped => [.cancelled]
  | .requeueing .., .writing .lateCancel _ => [.cancelledLate]
  | _, _ => []

/-- Can the storage for the tasks of this kind remove a partial output? -/
def Setup.undoes (c : Setup) (kind : String) : Bool :=
  (c.kinds.get? kind).any Handler.hasRollback

namespace Ledger

def worker? (l : Ledger) (seq : Nat) : Option Worker :=
  l.workers.find? fun w => w.seq = seq

/-- Has the worker of this number an entry in the running set? -/
def isEntered (l : Ledger) (seq : Nat) : Bool :=
  l.running.any fun r => r.seq = seq

/-- What the worker of this number has done between two ledgers. -/
def deeds (c : Setup) (l l' : Ledger) (seq : Nat) : List Deed :=
  match l.worker? seq, l'.worker? seq with
  | some w, some v => w.phase.deeds (c.undoes w.task.kind) w.told (l.isEntered seq && l'.isEntered seq) v.phase
  | _, _ => []

end Ledger

/-- What the worker of this number does in a run. -/
def State.deeds (c : Setup) (s : State) (seq : Nat) : List Move → List Deed
  | [] => []
  | m :: ms => s.ledger.deeds c (s.step c m).ledger seq ++ (s.step c m).deeds c seq ms

/-! ## What has been done by when -/

/-- Is the worker on its way to its storage? -/
def Phase.setsOut : Phase → Bool
  | .claimed | .opening _ | .fetching _ => true
  | _ => false

theorem Phase.isOver_of_requeues {p : Phase} (h : p.requeues = true) : p.isOver = true := by
  cases p <;> first | rfl | cases h

theorem Phase.isOver_of_cancelsLate {p : Phase} (h : p.cancelsLate = true) : p.isOver = true := by
  cases p <;> first | rfl | cases h

theorem Phase.isOver_of_setsOut {p : Phase} (out : p.setsOut = true) : p.isOver = false := by
  cases p <;> first | rfl | cases out

/-- A worker that stays in its phase has done nothing. -/
theorem Phase.deeds_self (undoable told running : Bool) (p : Phase) : p.deeds undoable told running p = [] := by
  cases p <;> rfl

/-- A worker that has the result of its attempt does nothing more about the output. -/
theorem Phase.deeds_of_isOver {p q : Phase} {told running : Bool} (settled : p.isOver = true) :
    ∀ x ∈ p.deeds u told running q, x = .cancelled ∨ x = .cancelledLate := by
  unfold deeds
  split <;> first | (cases settled; done) | simp

/-- What has been done about an output when the attempt has a result. -/
inductive Outturn (u : Bool) : List Deed → Prop
  /-- There is none. -/
  | untouched : Outturn u []
  | rolledBack (d : String) (able : u = true) :
      Outturn u [.put d u, .returned, .looked true, .rolledBack d true]
  | spoilt (d : String) (unable : u = false) : Outturn u [.put d u, .returned, .looked true]
  | passed (d : String) : Outturn u [.put d u, .returned, .looked false]

/-- What a worker in a phase has done. -/
inductive Tale (u : Bool) : Phase → List Deed → Prop
  | settingOut {p : Phase} (out : p.setsOut = true) : Tale u p []
  | storing (t : Transfer) : Tale u (.storing t) [.put t.destination u]
  | stored (t : Transfer) (result : Except Failure Nat) :
      Tale u (.stored t result) [.put t.destination u, .returned]
  | rollingBack (t : Transfer) (able : u = true) :
      Tale u (.rollingBack t) [.put t.destination u, .returned, .looked true]
  /-- What comes later is at most that the attempt is taken for cancelled. -/
  | settled {p : Phase} {ds rest : List Deed} (settled : p.isOver = true) (outturn : Outturn u ds)
      (late : ∀ x ∈ rest, x = .cancelled ∨ x = .cancelledLate) : Tale u p (ds ++ rest)

namespace Tale

variable {p q : Phase} {ds : List Deed}

theorem of_outturn (settled : p.isOver = true) (outturn : Outturn u ds) : Tale u p ds := by
  rw [← List.append_nil ds]
  exact .settled settled outturn (by simp)

theorem of_setsOut (tale : Tale u p ds) (out : p.setsOut = true) : ds = [] := by
  cases tale with
  | settingOut => rfl
  | settled settled =>
    rw [Phase.isOver_of_setsOut out] at settled
    cases settled
  | _ => cases out

theorem of_isOver (tale : Tale u p ds) (settled : p.isOver = true) :
    ∃ first rest, ds = first ++ rest ∧ Outturn u first ∧ ∀ x ∈ rest, x = Deed.cancelled ∨ x = Deed.cancelledLate := by
  cases tale with
  | settingOut out =>
    rw [Phase.isOver_of_setsOut out] at settled
    cases settled
  | settled _ outturn late => exact ⟨_, _, rfl, outturn, late⟩
  | _ => cases settled

/-- With its result a worker goes on, and at most it takes its attempt for cancelled. -/
theorem later (tale : Tale u p ds) (settled : p.isOver = true) (settled' : q.isOver = true) (told running : Bool) :
    Tale u q (ds ++ p.deeds u told running q) := by
  obtain ⟨first, rest, rfl, outturn, late⟩ := tale.of_isOver settled
  rw [List.append_assoc]
  refine .settled settled' outturn fun x hx => ?_
  rcases List.mem_append.mp hx with hx | hx
  · exact late x hx
  · exact Phase.deeds_of_isOver settled x hx

end Tale

/-- Where an attempt with an output that could be removed is taken for cancelled, the decision on the
rollback has been the other way, or the output is removed once and in time. -/
theorem Tale.rolledBack_iff {p : Phase} {ds : List Deed} (tale : Tale u p ds) {d : String}
    (put : .put d true ∈ ds) (cancelled : .cancelled ∈ ds ∨ .cancelledLate ∈ ds) :
    Deed.RolledBack d ds ↔ .looked true ∈ ds := by
  cases tale with
  | settingOut => cases put
  | storing | stored | rollingBack => simp at cancelled
  | settled settled outturn late =>
    rename_i ds rest
    have first {x : Deed} (hx : x ∈ ds ++ rest) (other : ¬(x = .cancelled ∨ x = .cancelledLate)) : x ∈ ds :=
      (List.mem_append.mp hx).resolve_right fun hx => other (late x hx)
    have unchanged : (ds ++ rest).filter (Deed.isRollback d) = ds.filter (Deed.isRollback d) := by
      have none : rest.filter (Deed.isRollback d) = [] :=
        List.filter_eq_nil_iff.mpr fun x hx => by rcases late x hx with rfl | rfl <;> simp [Deed.isRollback]
      rw [List.filter_append, none, List.append_nil]
    cases outturn with
    | untouched => cases first put (by simp)
    | rolledBack x able =>
      obtain ⟨rfl, -⟩ : d = x ∧ true = u := by simpa using first put (by simp)
      subst able
      refine iff_of_true ⟨unchanged.trans (by simp [Deed.isRollback]), ?_⟩ (by simp)
      refine List.Sublist.trans ?_ (List.sublist_append_left _ rest)
      exact (((List.Sublist.refl [_]).cons _).cons_cons _).cons_cons _
    | spoilt x unable =>
      obtain ⟨-, able⟩ : d = x ∧ true = u := by simpa using first put (by simp)
      cases able.trans unable
    | passed x =>
      refine iff_of_false (fun back => ?_) fun looked => ?_
      · have once := unchanged.symm.trans back.once
        simp [Deed.isRollback] at once
      · simpa using first looked (by simp)

/-- How a worker decides about the rollback. -/
theorem storedPhase_eq (c : Setup) (kind : String) (told : Bool) (t : Transfer) (result : Except Failure Nat) :
    storedPhase (c.kinds.get? kind) told t result =
      if told || saysStopped result then
        if c.undoes kind then .rollingBack t else .ended (.error Failure.cancelled)
      else .ended result := by
  unfold Setup.undoes
  rcases c.kinds.get? kind with - | ⟨- | -⟩ <;> cases told <;> cases result <;> rfl

/-- Going on by itself, a worker adds to its tale. -/
theorem Next.tale {w : Worker} {q : Phase} {hs : List Happening} {ds : List Deed} (next : Next c l w q hs)
    (tale : Tale (c.undoes w.task.kind) w.phase ds) :
    Tale (c.undoes w.task.kind) q (ds ++ w.phase.deeds (c.undoes w.task.kind) w.told true q) := by
  cases next with
  | fetch t phase =>
    obtain rfl := tale.of_setsOut (by rw [phase]; rfl)
    rw [phase]
    exact .settingOut rfl
  | stop t phase told =>
    rcases phase with phase | phase <;> obtain rfl := tale.of_setsOut (by rw [phase]; rfl) <;> rw [phase] <;>
      exact .of_outturn rfl .untouched
  | fetched t phase =>
    obtain rfl := tale.of_setsOut (by rw [phase]; rfl)
    rw [phase]
    exact .storing t
  | unfetched t failure phase =>
    obtain rfl := tale.of_setsOut (by rw [phase]; rfl)
    rw [phase]
    exact .of_outturn rfl .untouched
  | stored t result phase =>
    rw [phase] at tale ⊢
    cases tale with
    | storing => exact .stored t result
    | settingOut out => cases out
    | settled settled => cases settled
  | judge t result phase =>
    rw [phase] at tale ⊢
    cases tale with
    | stored =>
      -- Whatever the look finds, it is what decides.
      have looked : ∀ q : Phase, q = .rollingBack t ∨ (∃ r, q = .ended r) →
          (Phase.stored t result).deeds (c.undoes w.task.kind) w.told true q =
            [.looked (w.told || saysStopped result)] := by
        rintro _ (rfl | ⟨r, rfl⟩) <;> rfl
      rw [storedPhase_eq]
      cases stopped : w.told || saysStopped result with
      | true =>
        rw [if_pos rfl]
        by_cases able : c.undoes w.task.kind = true
        · rw [if_pos able, looked _ (Or.inl rfl), stopped]
          exact .rollingBack t able
        · rw [if_neg able, looked _ (Or.inr ⟨_, rfl⟩), stopped]
          exact .of_outturn rfl (.spoilt t.destination (by simpa using able))
      | false =>
        rw [if_neg Bool.false_ne_true, looked _ (Or.inr ⟨_, rfl⟩), stopped]
        exact .of_outturn rfl (.passed t.destination)
    | settingOut out => cases out
    | settled settled => cases settled
  | rolledBack t phase =>
    rw [phase] at tale ⊢
    cases tale with
    | rollingBack _ able => exact .of_outturn rfl (.rolledBack t.destination able)
    | settingOut out => cases out
    | settled settled => cases settled
  | settle result millis phase =>
    have settled : w.phase.isOver = true := by rw [phase]; rfl
    rcases endedPhase_cases w.told w.task.remaining millis result with
      hq | ⟨bytes, -, -, hq⟩ | ⟨failure, -, -, ⟨left, -, hq⟩ | ⟨-, hq⟩⟩ <;> rw [hq] <;>
      exact tale.later settled rfl w.told true
  | interrupted phase | cancelled phase | refused e attempt phase | again e attempt phase =>
    exact tale.later (by rw [phase]; rfl) rfl w.told true
  | givenUp e attempt phase => exact tale.later (by rw [phase]; rfl) (by cases e <;> rfl) w.told true

/-- Whatever is done to a worker, it adds to its tale. -/
theorem Origin.tale {v : Worker} (origin : Origin c l l' v) {w : Worker} {ds : List Deed}
    (unique : ∀ x ∈ l.workers, x.seq = v.seq → x = w) (before : v.seq < l.nextSeq)
    (tale : Tale (c.undoes w.task.kind) w.phase ds) :
    Tale (c.undoes w.task.kind) v.phase (ds ++ w.phase.deeds (c.undoes w.task.kind) w.told true v.phase) := by
  have own {x : Worker} (heir : Heir l x v) : x = w := unique x heir.here heir.seq
  cases origin with
  | claimed new => omega
  | same x heir phase =>
    obtain rfl := own heir
    rw [← phase, Phase.deeds_self, List.append_nil]
    exact tale
  | started x heir was phase =>
    obtain rfl := own heir
    obtain rfl := tale.of_setsOut (by rw [was]; rfl)
    rcases phase with ⟨failure, phase⟩ | ⟨t, phase⟩ <;> rw [was, phase]
    · exact .of_outturn rfl .untouched
    · exact .settingOut rfl
  | moved x heir hs next =>
    obtain rfl := own heir
    exact next.tale tale
  | handedBack x heir failure remaining attempt was phase =>
    obtain rfl := own heir
    exact tale.later (by rw [was]; rfl) (by rw [phase]; rfl) x.told true
  | heldBack x heir was phase =>
    obtain rfl := own heir
    exact tale.later (Phase.isOver_of_requeues was) (by rw [phase]; rfl) x.told true
  | lateStored x heir was phase =>
    obtain rfl := own heir
    exact tale.later (Phase.isOver_of_cancelsLate was) (by rw [phase]; rfl) x.told true
  | ended x heir es phase rest settled =>
    obtain rfl := own heir
    exact tale.later settled (by rw [phase]; rfl) x.told true

/-! ## Acts -/

theorem Phase.deeds_of_holds {p q : Phase} {undoable told running : Bool}
    (entered : p.holds = true → q.holds = true → running = true) :
    p.deeds undoable told running q = p.deeds undoable told true q := by
  by_cases rolls : ∃ t result, p = .rollingBack t ∧ q = .ended result
  · obtain ⟨t, result, rfl, rfl⟩ := rolls
    rw [entered rfl rfl]
  · unfold deeds
    split <;> first | rfl | exact absurd ⟨_, _, rfl, rfl⟩ rolls

namespace Ledger

theorem of_worker? {seq : Nat} {w : Worker} (found : l.worker? seq = some w) :
    w ∈ l.workers ∧ w.seq = seq :=
  ⟨List.mem_of_find?_eq_some found, by simpa using List.find?_some found⟩

theorem worker?_eq_none {seq : Nat} (gone : l.worker? seq = none) {w : Worker} (here : w ∈ l.workers) :
    w.seq ≠ seq := by
  simpa using List.find?_eq_none.mp gone w here

theorem Owned.isEntered (h : l.Owned) {w : Worker} (here : w ∈ l.workers) (holds : w.phase.holds = true) :
    l.isEntered w.seq = true := by
  obtain ⟨r, hr, -, hseq⟩ := h.entry w here holds
  exact List.any_eq_true.mpr ⟨r, hr, decide_eq_true hseq⟩

/-- A worker that keeps its phase, comes or goes has done nothing. -/
theorem deeds_of_phases {seq : Nat}
    (same : ∀ w ∈ l.workers, ∀ v ∈ l'.workers, w.seq = seq → v.seq = seq → w.phase = v.phase) :
    l.deeds c l' seq = [] := by
  unfold deeds
  split
  · rename_i w v hw hv
    obtain ⟨here, hwseq⟩ := of_worker? hw
    obtain ⟨there, hvseq⟩ := of_worker? hv
    rw [same w here v there hwseq hvseq]
    exact v.phase.deeds_self _ _ _
  · rfl

theorem Numbered.deeds_of_workers (numbered : l.Numbered) (same : l'.workers = l.workers) (seq : Nat) :
    l.deeds c l' seq = [] := by
  refine deeds_of_phases fun w here v hv hwseq hvseq => ?_
  rw [numbered.worker_eq here (same ▸ hv) (hwseq.trans hvseq.symm)]

/-- While it holds its task a worker has its entry in the running set, and so has one that rolls back. -/
theorem Owned.deeds_eq (owned : l.Owned) (owned' : l'.Owned) {seq : Nat} {w v : Worker}
    (hw : l.worker? seq = some w) (hv : l'.worker? seq = some v) :
    l.deeds c l' seq = w.phase.deeds (c.undoes w.task.kind) w.told true v.phase := by
  obtain ⟨here, rfl⟩ := of_worker? hw
  obtain ⟨there, hseq⟩ := of_worker? hv
  simp only [deeds, hw, hv]
  refine Phase.deeds_of_holds fun holds holds' => ?_
  rw [owned.isEntered here holds, ← hseq, owned'.isEntered there holds']
  rfl

/-- The account of what the worker of this number has done. Once it is gone, the account is closed. -/
structure Account (c : Setup) (l : Ledger) (seq : Nat) (ds : List Deed) : Prop where
  tale : ∃ kind p, Tale (c.undoes kind) p ds ∧
    ∀ w, l.worker? seq = some w → w.task.kind = kind ∧ w.phase = p
  unused : l.nextSeq ≤ seq → ds = []

namespace Account

variable {seq : Nat} {ds : List Deed}

theorem init (c : Setup) (disk : Disk) (seq : Nat) : Account c (State.init c disk).ledger seq [] where
  tale := ⟨"", .claimed, .settingOut rfl, by simp [worker?, State.ledger, State.init]⟩
  unused _ := rfl

theorem of_workers (h : Account c l seq ds) (workers : l'.workers = l.workers)
    (next : l'.nextSeq = l.nextSeq) : Account c l' seq ds where
  tale := by
    have found : l'.worker? seq = l.worker? seq := congrArg (List.find? _) workers
    rw [found]
    exact h.tale
  unused := next ▸ h.unused

/-- An act is entered in the account. -/
theorem act (h : Account c l seq ds) (owned : l.Owned) (act : Act c E l l') :
    Account c l' seq (ds ++ l.deeds c l' seq) := by
  have owned' := owned.step act
  have grows : l.nextSeq ≤ l'.nextSeq := by
    rcases act.seqs with ⟨-, same⟩ | ⟨-, more⟩ <;> omega
  obtain ⟨kind, p, tale, worker⟩ := h.tale
  cases hv : l'.worker? seq with
  | none =>
    have nothing : l.deeds c l' seq = [] :=
      deeds_of_phases fun _ _ v there _ hseq => absurd hseq (worker?_eq_none hv there)
    rw [nothing, List.append_nil]
    exact ⟨⟨kind, p, tale, by simp [hv]⟩, fun beyond => h.unused (Nat.le_trans grows beyond)⟩
  | some v =>
    obtain ⟨hmem, rfl⟩ := of_worker? hv
    have origin := owned.origin act hmem
    refine ⟨?_, fun beyond => absurd (owned'.seqs_lt v hmem) (by omega)⟩
    cases hw : l.worker? v.seq with
    | none =>
      -- Nobody else can have become this worker.
      cases origin with
      | claimed new phase =>
        have nothing : l.deeds c l' v.seq = [] :=
          deeds_of_phases fun w here _ _ hseq _ => absurd hseq (worker?_eq_none hw here)
        rw [nothing, List.append_nil, h.unused (Nat.le_of_eq new.symm)]
        refine ⟨v.task.kind, v.phase, .settingOut (by rw [phase]; rfl), fun x hx => ?_⟩
        obtain rfl := Option.some.inj (hv.symm.trans hx)
        exact ⟨rfl, rfl⟩
      | same x heir | started x heir | moved x heir | handedBack x heir | heldBack x heir
      | lateStored x heir | ended x heir => exact absurd heir.seq (worker?_eq_none hw heir.here)
    | some w =>
      obtain ⟨here, hseq⟩ := of_worker? hw
      obtain ⟨rfl, rfl⟩ := worker w hw
      have unique : ∀ x ∈ l.workers, x.seq = v.seq → x = w :=
        fun x hx xseq => owned.worker_eq hx here (xseq.trans hseq.symm)
      have known : v.seq < l.nextSeq := hseq ▸ owned.seqs_lt w here
      have kind : v.task.kind = w.task.kind := by
        rcases origin.heir_or_claimed with ⟨x, heir⟩ | ⟨new, -⟩
        · rw [← unique x heir.here heir.seq, heir.task]
        · omega
      rw [owned.deeds_eq owned' hw hv]
      refine ⟨w.task.kind, v.phase, origin.tale unique known tale, fun x hx => ?_⟩
      obtain rfl := Option.some.inj (hv.symm.trans hx)
      exact ⟨kind, rfl⟩

end Account

end Ledger

/-! ## What the history shows -/

/-- What is noted of a step of a worker is noted under its number, and it is what the worker has done. -/
theorem Next.noted {w : Worker} {q : Phase} {hs : List Happening} (next : Next c l w q hs) (running : Bool) :
    (w.phase.deeds u w.told running q).filterMap (Deed.noted? w.seq) = hs.reverse.filter (Happening.isStorageOf w.seq) ∧
      ∀ x ∈ hs, ∀ seq, x.isStorageOf seq = true → w.seq = seq := by
  cases next with
  | stop t phase told => rcases phase with phase | phase <;> rw [phase] <;> exact ⟨rfl, by simp⟩
  | fetch t phase =>
    rw [phase]
    exact ⟨rfl, by simp [Happening.isStorageOf]⟩
  | fetched t phase | rolledBack t phase =>
    rw [phase]
    exact ⟨by simp [Phase.deeds, Deed.noted?, Happening.isStorageOf],
      by simp [Happening.isStorageOf]⟩
  | judge t result phase =>
    rw [phase]
    rcases storedPhase_cases (c.kinds.get? w.task.kind) w.told t result with hq | hq | ⟨-, hq⟩ <;> rw [hq] <;>
      exact ⟨rfl, by simp⟩
  | settle result millis phase =>
    rw [phase]
    rcases endedPhase_cases w.told w.task.remaining millis result with
      hq | ⟨bytes, -, -, hq⟩ | ⟨failure, -, -, ⟨left, -, hq⟩ | ⟨-, hq⟩⟩ <;> rw [hq] <;> exact ⟨rfl, by simp⟩
  | givenUp e attempt phase =>
    rw [phase]
    cases e <;> exact ⟨rfl, by simp⟩
  | again e attempt phase =>
    rw [phase]
    cases e <;> exact ⟨rfl, by simp⟩
  | unfetched t failure phase | stored t result phase | interrupted phase | cancelled phase
  | refused e attempt phase =>
    rw [phase]
    exact ⟨rfl, by simp⟩

theorem Phase.deeds_unnoted {p q : Phase} {told running : Bool} (quiet : p = .claimed ∨ p.isOver = true)
    (seq : Nat) : (p.deeds u told running q).filterMap (Deed.noted? seq) = [] := by
  rcases quiet with rfl | settled
  · cases q <;> rfl
  · refine List.filterMap_eq_nil_iff.mpr fun x hx => ?_
    rcases deeds_of_isOver settled x hx with rfl | rfl <;> rfl

namespace Ledger

/-- A worker goes on by itself. -/
def GoesOn (c : Setup) (l l' : Ledger) : Prop :=
  ∃ w p hs, w ∈ l.workers ∧ Next c l w p hs ∧ l' = (l.note hs).setPhase w.seq p

/-- Whoever is between the start of its attempt and the result stays there. -/
def Still (l l' : Ledger) : Prop :=
  ∀ w ∈ l.workers, ∀ v ∈ l'.workers, w.seq = v.seq →
    w.phase = v.phase ∨ w.phase = .claimed ∨ w.phase.isOver = true

theorem Numbered.still_of_phases (numbered : l.Numbered)
    (kept : ∀ v ∈ l'.workers, v.seq < l.nextSeq → ∃ x ∈ l.workers, x.seq = v.seq ∧ x.phase = v.phase) :
    Still l l' := by
  intro w here v hv hseq
  obtain ⟨x, hx, xseq, phase⟩ := kept v hv (hseq ▸ numbered.seqs_lt w here)
  rw [numbered.worker_eq here hx (hseq.trans xseq.symm)]
  exact Or.inl phase

theorem Numbered.still_setWorker (numbered : l.Numbered) {x : Worker} (hx : x ∈ l.workers)
    (outside : x.phase = .claimed ∨ x.phase.isOver = true) {f : Worker → Worker}
    (keeps : ∀ y, (f y).seq = y.seq) : Still l (l.setWorker x.seq f) := by
  intro w here v hv hseq
  rcases mem_setWorker hv with ⟨hv, -⟩ | ⟨y, hy, same, rfl⟩
  · rw [numbered.worker_eq here hv hseq]
    exact Or.inl rfl
  · have hwx : w = x := numbered.worker_eq here hx (by rw [hseq, keeps, same])
    exact Or.inr (hwx ▸ outside)

/-- Only going on by itself a worker gets from the start of its attempt to the result. -/
theorem Numbered.goesOn_or_still (numbered : l.Numbered) (act : Act c E l l') :
    GoesOn c l l' ∨ Still l l' := by
  cases act with
  | advance w p hs here next => exact Or.inl ⟨w, p, hs, here, next, rfl⟩
  | tell r =>
    refine Or.inr (numbered.still_of_phases fun v hv _ => ?_)
    obtain ⟨x, hx, rfl⟩ := List.mem_map.mp hv
    exact ⟨x, hx, by split <;> rfl, by split <;> rfl⟩
  | stopAll =>
    refine Or.inr (numbered.still_of_phases fun v hv _ => ?_)
    obtain ⟨x, hx, rfl⟩ := List.mem_map.mp hv
    exact ⟨x, hx, rfl, rfl⟩
  | giveUpAll =>
    refine Or.inr (numbered.still_of_phases fun v hv _ => ?_)
    obtain ⟨x, hx, rfl⟩ := List.mem_map.mp hv
    exact ⟨x, (List.mem_filter.mp hx).1, rfl, rfl⟩
  | vanish => exact Or.inr (numbered.still_of_phases fun v hv _ => ⟨v, (List.mem_filter.mp hv).1, rfl, rfl⟩)
  | claim =>
    refine Or.inr (numbered.still_of_phases fun v hv known => ?_)
    rcases List.mem_append.mp hv with hv | hv
    · exact ⟨v, hv, rfl, rfl⟩
    · obtain rfl := List.mem_singleton.mp hv
      exact absurd known (Nat.lt_irrefl _)
  | start w now here phase => exact Or.inr (numbered.still_setWorker here (Or.inl phase) fun _ => rfl)
  | letGo w es here phase =>
    refine Or.inr (numbered.still_setWorker here (Or.inr ?_) fun _ => rfl)
    rcases phase with phase | phase <;> rw [phase] <;> rfl
  | finish w e attempt store here phase =>
    exact Or.inr (numbered.still_setWorker here (Or.inr (by rw [phase]; rfl)) fun _ => rfl)
  | handBack w failure remaining attempt store here phase =>
    exact Or.inr (numbered.still_setWorker here (Or.inr (by rw [phase]; rfl)) fun _ => rfl)
  | lateStore w attempt store here phase =>
    exact Or.inr (numbered.still_setWorker here (Or.inr (by rw [phase]; rfl)) fun _ => rfl)
  | requeue w failure remaining here phase | holdBack w failure remaining here phase =>
    exact Or.inr (numbered.still_setWorker here (Or.inr (by rw [phase]; rfl)) fun _ => rfl)
  | clear w here phase => exact Or.inr (numbered.still_setWorker here (Or.inr (by rw [phase]; rfl)) fun _ => rfl)
  | workerEffect w e es here phase =>
    exact Or.inr (numbered.still_setWorker here (Or.inr (by rw [phase]; rfl)) fun _ => rfl)
  | _ => exact Or.inr (numbered.still_of_phases fun v hv _ => ⟨v, hv, rfl, rfl⟩)

/-- Only a worker that goes on by itself has its storage do anything. -/
theorem goesOn_or_silent (act : Act c E l l') :
    GoesOn c l l' ∨ ∃ hs, l'.history = hs ++ l.history ∧ ∀ x ∈ hs, ∀ seq, x.isStorageOf seq = false := by
  have reported (e : Effect) : ∀ x ∈ e.happenings, ∀ seq, x.isStorageOf seq = false := by
    cases e <;> simp [Effect.happenings, Happening.isStorageOf]
  cases act with
  | advance w p hs here next => exact Or.inl ⟨w, p, hs, here, next, rfl⟩
  | callEffect call e | workerEffect w e => exact Or.inr ⟨e.happenings, rfl, reported e⟩
  | tell | retell | storeCancel | takePending | start | handBack | lateStore | holdBack =>
    exact Or.inr ⟨[_], rfl, by simp [Happening.isStorageOf]⟩
  | takeRunning | claim | letGo | finish => exact Or.inr ⟨[_, _], rfl, by simp [Happening.isStorageOf]⟩
  | submit | withdraw | requeue => exact Or.inr ⟨[_, _, _], rfl, by simp [Happening.isStorageOf]⟩
  | _ => exact Or.inr ⟨[], rfl, by simp⟩

/-- What is noted of a worker that goes on by itself is what it has done. -/
theorem history_goesOn (numbered : l.Numbered) {w : Worker} {p : Phase} {hs : List Happening}
    (here : w ∈ l.workers) (next : Next c l w p hs) (seq : Nat) :
    hs.reverse.filter (Happening.isStorageOf seq) =
      (l.deeds c ((l.note hs).setPhase w.seq p) seq).filterMap (Deed.noted? seq) := by
  have numbered' : ((l.note hs).setPhase w.seq p).Numbered :=
    numbered.step (.advance w p hs here next : Act c .any l _)
  by_cases hseq : w.seq = seq
  · subst hseq
    have there : { w with phase := p } ∈ ((l.note hs).setPhase w.seq p).workers :=
      List.mem_map.mpr ⟨w, here, if_pos rfl⟩
    have before : l.worker? w.seq = some w := numbered.found here
    have after : ((l.note hs).setPhase w.seq p).worker? w.seq = some { w with phase := p } :=
      numbered'.found there
    simp only [deeds, before, after]
    exact (next.noted _).1.symm
  · have nothing : l.deeds c ((l.note hs).setPhase w.seq p) seq = [] := by
      refine deeds_of_phases fun x hx v hv hxseq hvseq => ?_
      rcases mem_setWorker hv with ⟨hv, -⟩ | ⟨y, hy, hyseq, rfl⟩
      · rw [numbered.worker_eq hx hv (hxseq.trans hvseq.symm)]
      · exact absurd (hyseq.symm.trans hvseq) hseq
    rw [nothing]
    refine List.filter_eq_nil_iff.mpr fun x hx own => hseq ?_
    exact (next.noted (u := true) true).2 x (List.mem_reverse.mp hx) seq own

theorem Still.unnoted (still : Still l l') (seq : Nat) :
    (l.deeds c l' seq).filterMap (Deed.noted? seq) = [] := by
  unfold deeds
  split
  · rename_i w v hw hv
    obtain ⟨here, hwseq⟩ := of_worker? hw
    obtain ⟨there, hvseq⟩ := of_worker? hv
    rcases still w here v there (hwseq.trans hvseq.symm) with same | outside
    · rw [same, Phase.deeds_self]
      rfl
    · exact Phase.deeds_unnoted outside seq
  · rfl

/-- The storage of a worker does what the history shows. -/
theorem history_act (numbered : l.Numbered) (act : Act c E l l') (seq : Nat) :
    l'.history.reverse.filter (Happening.isStorageOf seq) =
      l.history.reverse.filter (Happening.isStorageOf seq) ++
        (l.deeds c l' seq).filterMap (Deed.noted? seq) := by
  by_cases goesOn : GoesOn c l l'
  · obtain ⟨w, p, hs, here, next, rfl⟩ := goesOn
    rw [← history_goesOn numbered here next]
    show (hs ++ l.history).reverse.filter _ = _
    rw [List.reverse_append, List.filter_append]
  · obtain ⟨hs, history, silent⟩ := (goesOn_or_silent act).resolve_left goesOn
    have still := (numbered.goesOn_or_still act).resolve_left goesOn
    have quiet : hs.reverse.filter (Happening.isStorageOf seq) = [] :=
      List.filter_eq_nil_iff.mpr fun x hx => by simp [silent x (List.mem_reverse.mp hx) seq]
    rw [history, List.reverse_append, List.filter_append, quiet, still.unnoted]

end Ledger

/-! ## Runs -/

namespace State

theorem deeds_concat (s : State) (seq : Nat) (ms : List Move) (m : Move) :
    s.deeds c seq (ms ++ [m]) =
      s.deeds c seq ms ++ (s.run c ms).ledger.deeds c ((s.run c ms).step c m).ledger seq := by
  induction ms generalizing s with
  | nil => simp [deeds, run]
  | cons n ms ih =>
    rw [List.cons_append, deeds, ih, deeds, List.append_assoc]
    rfl

/-- A move with a new id is one act for the account, or it leaves the workers alone. -/
theorem account_step {seq : Nat} {ds : List Deed} (h : s.ledger.Account c seq ds) (owned : s.ledger.Owned)
    {m : Move} (fresh : m.Fresh s) :
    (s.step c m).ledger.Account c seq (ds ++ s.ledger.deeds c (s.step c m).ledger seq) := by
  have still (workers : (s.step c m).workers = s.workers) (next : (s.step c m).nextSeq = s.nextSeq) :
      (s.step c m).ledger.Account c seq (ds ++ s.ledger.deeds c (s.step c m).ledger seq) := by
    rw [owned.numbered.deeds_of_workers workers, List.append_nil]
    exact h.of_workers workers next
  rcases act_of_fresh (c := c) fresh with rfl | act
  · obtain ⟨workers, next, -⟩ := staff_eq_iff.mp (s.staff_recover (c := c))
    exact still workers next
  · rcases (Relation.reflGen_iff _ _ _).mp act with same | act
    · exact still (congrArg Ledger.workers same) (congrArg Ledger.nextSeq same)
    · exact h.act owned act

theorem history_deeds_step (numbered : s.ledger.Numbered) {m : Move} (fresh : m.Fresh s) (seq : Nat) :
    (s.step c m).history.reverse.filter (Happening.isStorageOf seq) =
      s.history.reverse.filter (Happening.isStorageOf seq) ++
        (s.ledger.deeds c (s.step c m).ledger seq).filterMap (Deed.noted? seq) := by
  rcases act_of_fresh (c := c) fresh with rfl | act
  · -- A recovery has nothing to do with anybody's storage.
    have aside := s.recover_acts (c := c) (E := .any)
    have workers : (s.step c .recover).workers = s.workers :=
      (staff_eq_iff.mp (s.staff_recover (c := c))).1
    rw [numbered.deeds_of_workers workers, List.filterMap_nil, List.append_nil]
    show (s.recover c).2.ledger.history.reverse.filter _ = s.ledger.history.reverse.filter _
    generalize (s.recover c).2.ledger = l' at aside
    induction aside with
    | refl => rfl
    | tail acts act ih =>
      have numbered' := numbered.acts (ActsAside.acts acts)
      rw [Ledger.history_act numbered' act.1, numbered'.deeds_of_workers act.2, ih]
      simp
  · rcases (Relation.reflGen_iff _ _ _).mp act with same | act
    · rw [numbered.deeds_of_workers (congrArg Ledger.workers same), List.filterMap_nil, List.append_nil]
      exact congrArg (fun l : Ledger => l.history.reverse.filter _) same
    · exact Ledger.history_act numbered act seq

theorem account_run (c : Setup) (disk : Disk) {ms : List Move}
    (run : (State.init c disk).Follows c Move.Fresh ms) (seq : Nat) :
    ((State.init c disk).run c ms).ledger.Account c seq ((State.init c disk).deeds c seq ms) ∧
      ((State.init c disk).run c ms).history.reverse.filter (Happening.isStorageOf seq) =
        ((State.init c disk).deeds c seq ms).filterMap (Deed.noted? seq) := by
  induction ms using List.reverseRecOn with
  | nil => exact ⟨.init c disk seq, rfl⟩
  | append_singleton ms m ih =>
    obtain ⟨before, fresh, -⟩ := Follows.append.mp run
    obtain ⟨account, history⟩ := ih before
    have owned : ((State.init c disk).run c ms).ledger.Owned :=
      (Ledger.Owned.init c disk).acts (run_acts_of_fresh before)
    rw [run_concat, deeds_concat]
    refine ⟨account_step account owned fresh, ?_⟩
    rw [history_deeds_step owned.numbered fresh, history, List.filterMap_append]

/-- When the output of a cancelled attempt is rolled back, over every run with fresh submissions: whatever a
worker has stored by a storage that can remove it, if the worker takes its attempt for cancelled, or the task
is cancelled on its way back to the queue, then the output is rolled back exactly once, after the storage has
returned and before the task leaves the running set, if and only if the worker was stopped, or its storage had
failed as cancelled, when it looked right after the storage had returned. What it then has its storage do is
what the history shows. -/
theorem cancelled_rolled_back_iff (c : Setup) (disk : Disk) (ms : List Move)
    (run : (State.init c disk).Follows c Move.Fresh ms) (seq : Nat) (d : String) :
    let ds := (State.init c disk).deeds c seq ms
    (.put d true ∈ ds → .cancelled ∈ ds ∨ .cancelledLate ∈ ds → (Deed.RolledBack d ds ↔ .looked true ∈ ds)) ∧
      ((State.init c disk).run c ms).history.reverse.filter (Happening.isStorageOf seq) =
        ds.filterMap (Deed.noted? seq) := by
  obtain ⟨account, history⟩ := account_run c disk run seq
  obtain ⟨kind, p, tale, -⟩ := account.tale
  exact ⟨tale.rolledBack_iff, history⟩

/-- The storage of a task has begun. -/
def puttingRun : List Move :=
  [.submit "a" "mem" (Transfer.encode ⟨"a", "out/a"⟩) "film", .start, .loop .go, .loop .permit, .loop .go,
    .loop .go, .worker 0 .go, .worker 0 .go, .worker 0 (.fetched (.ok ()))]

/-- The task is cancelled while the storage works. -/
def stoppedRun : List Move :=
  puttingRun ++
    [.cancel "a", .worker 0 (.stored (.error Failure.cancelled)), .worker 0 .go, .worker 0 .go, .worker 0 .go,
      .worker 0 .go, .worker 0 .go]

/-- Then its output is rolled back. -/
theorem cancelled_rolled_back_while_storing :
    let c := Setup.small 1
    (State.init c {}).Follows c Move.Fresh stoppedRun ∧
      Deed.RolledBack "out/a" ((State.init c {}).deeds c 0 stoppedRun) := by
  have run : (State.init (Setup.small 1) {}).Follows (Setup.small 1) Move.Fresh stoppedRun := by
    decide +kernel
  refine ⟨run, ?_⟩
  exact ((cancelled_rolled_back_iff (Setup.small 1) {} stoppedRun run 0 "out/a").1 (by decide +kernel)
    (by decide +kernel)).mpr (by decide +kernel)

/-- The task is cancelled between the two looks of its worker at the stop signal. -/
def stoppedLateRun : List Move :=
  puttingRun ++
    [.worker 0 (.stored (.ok 1)), .worker 0 .go, .cancel "a", .worker 0 .go, .worker 0 .go, .worker 0 .go,
      .worker 0 .go]

/-- The storage fails, and the task is cancelled while its worker waits to store `pending` once more. -/
def stoppedOnTheWayBackRun : List Move :=
  .outage (.update .pending) (.times 1) :: puttingRun ++
    [.worker 0 (.stored (.error ⟨.network, "down"⟩)), .worker 0 .go, .worker 0 .go, .worker 0 .go, .cancel "a",
      .worker 0 .go, .worker 0 .go, .worker 0 .go, .worker 0 .go, .worker 0 .go, .worker 0 .go]

/-- At the end of the run the task `a` is cancelled, stored and reported as such and no longer running, its
worker has taken it for cancelled at one point or the other, and the output of its storage has not been rolled
back. -/
def OutputStays (c : Setup) (ms : List Move) (taken : Deed) : Prop :=
  let s := (State.init c {}).run c ms
  let ds := (State.init c {}).deeds c 0 ms
  s.disk.store.status? "a" = some .cancelled ∧ .cancelled "a" ∈ s.events ∧ s.ledger.runningIds = [] ∧
    .put "out/a" true ∈ ds ∧ taken ∈ ds ∧ ¬Deed.RolledBack "out/a" ds ∧
    s.history.filter (Happening.isStorageOf 0) = [.put 0 "out/a"]

instance (c : Setup) (ms : List Move) (taken : Deed) : Decidable (OutputStays c ms taken) :=
  inferInstanceAs (Decidable (_ ∧ _ ∧ _ ∧ _ ∧ _ ∧ _ ∧ _))

/-- After either cancellation the output stays where it is. -/
theorem output_left_behind :
    ((State.init (Setup.small 1) {}).Follows (Setup.small 1) Move.Fresh stoppedLateRun ∧
      OutputStays (Setup.small 1) stoppedLateRun .cancelled) ∧
    (State.init (Setup.small 1) {}).Follows (Setup.small 1) Move.Fresh stoppedOnTheWayBackRun ∧
      OutputStays (Setup.small 1) stoppedOnTheWayBackRun .cancelledLate := by
  refine ⟨⟨?_, ?_⟩, ?_, ?_⟩ <;> decide +kernel

end State

end Courier.Scheduler
