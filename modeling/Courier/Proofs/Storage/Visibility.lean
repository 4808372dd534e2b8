/-
# Courier.Proofs.Storage.Visibility -- what shows at a destination while outputs are stored

Several transfers work on one volume, and their file operations come in any order. A destination should show what
it showed before, or all that one transfer to it has received.

The name of a part depends on the destination only, which goes wrong in two ways. A part can have the name of
somebody else's destination. And two transfers to one destination have the same part: opening it empties the file
that the other one is writing, and whoever renames it first makes visible what the other one still writes to.

A transfer that is under way keeps its part (`Put.Kept`): the part names the file that the transfer has open, which
holds all that has been received so far. One operation of a transfer keeps that, and touches its own part and
destination only (`Put.Fair`). Transfers that do not take each other's parts (`Crowd.Exclusive`) then do not disturb
each other, and nothing incomplete ever shows (`visible_files_complete`).
-/
import Courier.Storage.Local
import Courier.Proofs.Files.Effects

namespace Courier.Storage

/-! ## Several transfers -/

/-- Transfers at work on one volume. -/
structure Crowd where
  volume : Volume
  puts : List Put

namespace Crowd

/-- The next file operation of one of the transfers. -/
def step (c : Crowd) (i : Nat) : Crowd :=
  match c.puts[i]? with
  | none => c
  | some p => { volume := (p.step c.volume).1, puts := c.puts.set i (p.step c.volume).2 }

/-- File operations in some order: who takes the next one, and the one after that. -/
def run (c : Crowd) (schedule : List Nat) : Crowd := schedule.foldl step c

end Crowd

namespace Put

/-- Has the transfer opened its part, and has not ended? -/
def isUnderway (p : Put) : Bool :=
  match p.stage with
  | .writing .. | .cleaning _ | .renaming _ => true
  | .preparing | .opening | .done _ => false

/-- Is opening the part what the transfer does next? -/
def opensNext (p : Put) : Bool :=
  match p.stage with
  | .opening => true
  | _ => false

end Put

namespace Crowd

/-- Does one transfer open the part of another one that is under way? -/
def takes (c : Crowd) (i j : Nat) : Bool :=
  match c.puts[i]?, c.puts[j]? with
  | some p, some q => p.opensNext && q.isUnderway && p.part.place == q.part.place
  | _, _ => false

/-- A transfer whose part is opened by somebody else takes no further operation. -/
def Exclusive : Crowd → List Nat → Prop
  | _, [] => True
  | c, i :: rest => (∀ j ∈ rest, j ≠ i → c.takes i j = false) ∧ Exclusive (c.step i) rest

instance decidableExclusive : (c : Crowd) → (schedule : List Nat) → Decidable (c.Exclusive schedule)
  | _, [] => inferInstanceAs (Decidable True)
  | c, i :: rest =>
    have := decidableExclusive (c.step i) rest
    inferInstanceAs (Decidable ((∀ j ∈ rest, j ≠ i → c.takes i j = false) ∧ (c.step i).Exclusive rest))

/-- A place shows what it showed at first, or everything that one of the transfers to it has received, which then
has ended and has reported that many bytes. -/
def Complete (c c' : Crowd) (l : Location) : Prop :=
  c'.volume.contentAt? l = c.volume.contentAt? l ∨
    ∃ (i : Nat) (q p : Put) (chunks : List Bytes),
      c.puts[i]? = some q ∧ q.target.place = l ∧ q.stream = chunks.map .ok ∧
      c'.puts[i]? = some p ∧ p.stage = .done (.ok chunks.flatten.length) ∧
      c'.volume.contentAt? l = some (.bytes chunks.flatten)

end Crowd

/-! ## One transfer -/

namespace Put

/-- What a transfer relies on from one operation to the next: while it writes, and when it is about to rename, its
part names the file that it has open, and the file holds what has been received so far. -/
def Kept (stream : List (Except Failure Bytes)) (v : Volume) (p : Put) : Prop :=
  match p.stage with
  | .preparing | .opening => p.stream = stream
  | .writing n offset => ∃ chunks : List Bytes, stream = chunks.map .ok ++ p.stream ∧
      offset = chunks.flatten.length ∧ v.file? p.part.place = some n ∧ v.content n = .bytes chunks.flatten
  | .renaming written => ∃ (chunks : List Bytes) (n : Nat), stream = chunks.map .ok ∧
      written = chunks.flatten.length ∧ v.file? p.part.place = some n ∧ v.content n = .bytes chunks.flatten
  | .cleaning _ | .done _ => True

/-- Everything received has taken the name of the destination. -/
def Delivered (stream : List (Except Failure Bytes)) (v : Volume) (p : Put) : Prop :=
  ∃ chunks : List Bytes, stream = chunks.map .ok ∧ p.stage = .done (.ok chunks.flatten.length) ∧
    v.contentAt? p.target.place = some (.bytes chunks.flatten)

/-- What one operation of a transfer does to the volume, and where it leaves the transfer. -/
structure Fair (stream : List (Except Failure Bytes)) (v : Volume) (p : Put) (v' : Volume) (p' : Put) : Prop where
  target : p'.target = p.target
  sound : v'.Sound
  kept : p'.Kept stream v'
  elsewhere : ∀ l, l ≠ p.part.place → l ≠ p.target.place → v.Keeps v' l
  /-- The part is only touched by whoever opens it or has it open. -/
  idle : p.opensNext = false → p.isUnderway = false → ∀ l, v.Keeps v' l
  begun : p'.isUnderway = true → p.opensNext = true ∨ p.isUnderway = true
  shown : v.Keeps v' p.target.place ∨ p'.Delivered stream v'

variable {stream : List (Except Failure Bytes)} {v : Volume} {p : Put}

/-- What a transfer relies on stays if its part is left alone. -/
theorem Kept.frame {v' : Volume} (h : p.Kept stream v) (same : p.isUnderway = true → v.Keeps v' p.part.place) :
    p.Kept stream v' := by
  unfold Kept at *
  unfold isUnderway at same
  split at h
  · exact h
  · exact h
  · obtain ⟨chunks, split_, offset, file, content⟩ := h
    simp only [*, forall_const] at same
    exact ⟨chunks, split_, offset, same.file?.trans file, (same.content _ file).trans content⟩
  · obtain ⟨chunks, n, all, written, file, content⟩ := h
    simp only [*, forall_const] at same
    exact ⟨chunks, n, all, written, same.file?.trans file, (same.content _ file).trans content⟩
  · trivial
  · trivial

/-- Nothing is relied on by a transfer that has a problem. -/
theorem kept_aftermath (problem : Problem) (target : Path) (rest stream : List (Except Failure Bytes)) (v : Volume) :
    Kept stream v { target, stream := rest, stage := problem.aftermath } := by
  unfold Kept Problem.aftermath
  cases problem.failure.isCancelled <;> exact trivial

/-- An operation that does not reach the volume. -/
theorem Fair.still {p' : Put} (sound : v.Sound) (target : p'.target = p.target) (kept : p'.Kept stream v)
    (begun : p'.isUnderway = true → p.opensNext = true ∨ p.isUnderway = true) : Fair stream v p v p' where
  target := target
  sound := sound
  kept := kept
  elsewhere l _ _ := Volume.Keeps.refl v l
  idle _ _ l := Volume.Keeps.refl v l
  begun := begun
  shown := Or.inl (Volume.Keeps.refl v _)

theorem fair_preparing (stage : p.stage = .preparing) (sound : v.Sound) (kept : p.Kept stream v) :
    Fair stream v p (p.step v).1 (p.step v).2 := by
  have whole : p.stream = stream := by simpa only [Kept, stage] using kept
  unfold step
  simp only [stage]
  split
  · exact .still sound rfl whole nofun
  · rename_i parent _
    have keeps := Volume.Keeps.ensureDirectory v [] parent
    have sound' := sound.ensureDirectory [] parent
    split <;> rename_i made <;> rw [made] at keeps sound'
    · exact ⟨rfl, sound', whole, fun l _ _ => keeps l, fun _ _ => keeps, nofun, Or.inl (keeps _)⟩
    · exact ⟨rfl, sound', trivial, fun l _ _ => keeps l, fun _ _ => keeps, nofun, Or.inl (keeps _)⟩

theorem fair_opening (stage : p.stage = .opening) (sound : v.Sound) (kept : p.Kept stream v)
    (apart : p.part.place ≠ p.target.place) : Fair stream v p (p.step v).1 (p.step v).2 := by
  have whole : p.stream = stream := by simpa only [Kept, stage] using kept
  have opens : p.opensNext = true := by simp only [opensNext, stage]
  unfold step
  simp only [stage]
  split
  · rename_i n v' created
    obtain ⟨-, files, contents, -⟩ := Volume.create_eq_ok created
    refine ⟨rfl, sound.create created, ⟨[], whole.symm, rfl, ?_, ?_⟩, fun l other _ => ?_, ?_, fun _ => Or.inl opens,
      Or.inl ?_⟩
    · exact (files _).trans (if_pos rfl)
    · exact (contents n).trans (if_pos rfl)
    · exact .create sound.numbered created (sound.separate other)
    · exact fun closed => absurd opens (by rw [closed]; exact Bool.false_ne_true)
    · exact .create sound.numbered created (sound.separate apart.symm)
  · exact .still sound rfl trivial nofun

theorem fair_writing {n offset : Nat} (stage : p.stage = .writing n offset) (sound : v.Sound)
    (kept : p.Kept stream v) (apart : p.part.place ≠ p.target.place) :
    Fair stream v p (p.step v).1 (p.step v).2 := by
  obtain ⟨chunks, all, rfl, file, content⟩ :
      ∃ chunks : List Bytes, stream = chunks.map .ok ++ p.stream ∧ offset = chunks.flatten.length ∧
        v.file? p.part.place = some n ∧ v.content n = .bytes chunks.flatten := by
    simpa only [Kept, stage] using kept
  have underway : p.isUnderway = true := by simp only [isUnderway, stage]
  unfold step
  simp only [stage]
  split
  · rename_i ended
    rw [ended, List.append_nil] at all
    have still : ∀ l, v.Keeps v.answered l := .answered v
    split <;> rename_i flushed <;> obtain rfl := Volume.flush_eq flushed
    · exact ⟨rfl, sound.answered, ⟨chunks, n, all, rfl, file, content⟩, fun l _ _ => still l, fun _ _ => still,
        fun _ => Or.inr underway, Or.inl (still _)⟩
    · exact ⟨rfl, sound.answered, kept_aftermath .., fun l _ _ => still l, fun _ _ => still, fun _ => Or.inr underway,
        Or.inl (still _)⟩
  · rename_i chunk rest next
    -- No other place names the file that is written.
    have keeps (bytes : Bytes) (l : Location) (other : l ≠ p.part.place) :
        v.Keeps (v.answered.overwrite n chunks.flatten.length bytes) l :=
      (Volume.Keeps.answered v l).trans
        (.overwrite (v := v.answered) content bytes fun here => other (sound.single l _ n here file))
    have notIdle {v' : Volume} : p.opensNext = false → p.isUnderway = false → ∀ l, v.Keeps v' l :=
      fun _ ended => absurd underway (by rw [ended]; exact Bool.false_ne_true)
    split <;> rename_i written <;> obtain ⟨bytes, rfl, taken⟩ := Volume.write_eq written
    · obtain rfl := taken rfl
      refine ⟨rfl, sound.answered.overwrite .., ⟨chunks ++ [bytes], ?_, ?_, file, ?_⟩,
        fun l other _ => keeps bytes l other, notIdle, fun _ => Or.inr underway, Or.inl (keeps bytes _ apart.symm)⟩
      · rw [all, next, List.map_append, List.append_assoc]
        rfl
      · simp
      · rw [Volume.content_overwrite (v := v.answered) content, if_pos rfl]
        simp
    · exact ⟨rfl, sound.answered.overwrite .., kept_aftermath .., fun l other _ => keeps bytes l other, notIdle,
        fun _ => Or.inr underway, Or.inl (keeps bytes _ apart.symm)⟩
  · exact .still sound rfl (kept_aftermath ..) fun _ => Or.inr underway

theorem fair_cleaning {problem : Problem} (stage : p.stage = .cleaning problem) (sound : v.Sound)
    (apart : p.part.place ≠ p.target.place) : Fair stream v p (p.step v).1 (p.step v).2 := by
  have underway : p.isUnderway = true := by simp only [isUnderway, stage]
  have notIdle : p.isUnderway = false → ∀ l, v.Keeps ((v.removeIfPresent [] p.part).toOption.getD v) l :=
    fun ended => absurd underway (by rw [ended]; exact Bool.false_ne_true)
  unfold step
  simp only [stage]
  -- Nobody relies on the part any more, whether or not it could be removed.
  cases removed : v.removeIfPresent [] p.part with
  | error e => exact .still sound rfl trivial nofun
  | ok v' =>
    rw [removed] at notIdle
    exact ⟨rfl, sound.removeIfPresent removed, trivial, fun l other _ => .removeIfPresent removed other,
      fun _ => notIdle, nofun, Or.inl (.removeIfPresent removed apart.symm)⟩

theorem fair_renaming {written : Nat} (stage : p.stage = .renaming written) (sound : v.Sound)
    (kept : p.Kept stream v) : Fair stream v p (p.step v).1 (p.step v).2 := by
  obtain ⟨chunks, n, all, rfl, file, content⟩ :
      ∃ (chunks : List Bytes) (n : Nat), stream = chunks.map .ok ∧ written = chunks.flatten.length ∧
        v.file? p.part.place = some n ∧ v.content n = .bytes chunks.flatten := by
    simpa only [Kept, stage] using kept
  have underway : p.isUnderway = true := by simp only [isUnderway, stage]
  unfold step
  simp only [stage]
  split
  · rename_i v' renamed
    obtain ⟨m, here, files, contents⟩ := Volume.rename_eq_ok renamed
    obtain rfl : m = n := Option.some.inj (here.symm.trans file)
    refine ⟨rfl, sound.rename renamed, trivial, fun l notPart notTarget => .rename renamed notPart notTarget, ?_, nofun,
      Or.inr ⟨chunks, all, rfl, ?_⟩⟩
    · exact fun _ ended => absurd underway (by rw [ended]; exact Bool.false_ne_true)
    · have same : v'.content m = v.content m := by
        unfold Volume.content
        rw [contents]
      rw [Volume.contentAt?_eq, files, if_pos rfl, Option.map_some, same, content]
  · exact .still sound rfl trivial nofun

/-- One operation of a transfer whose part is not its destination. -/
theorem fair_step (sound : v.Sound) (kept : p.Kept stream v) (apart : p.part.place ≠ p.target.place) :
    Fair stream v p (p.step v).1 (p.step v).2 := by
  match stage : p.stage with
  | .preparing => exact fair_preparing stage sound kept
  | .opening => exact fair_opening stage sound kept apart
  | .writing n offset => exact fair_writing stage sound kept apart
  | .cleaning problem => exact fair_cleaning stage sound apart
  | .renaming written => exact fair_renaming stage sound kept
  | .done result =>
    simp only [step, stage]
    exact .still sound rfl kept Or.inr

end Put

/-! ## All of them -/

namespace Crowd

variable {c₀ c : Crowd} {rest : List Nat}

/-- What holds between two operations, `rest` being who will take the coming ones: a transfer that will go on has
kept its part and shares it with no other one that will. -/
structure Undisturbed (c₀ c : Crowd) (rest : List Nat) : Prop where
  sound : c.volume.Sound
  origin : ∀ i p, c.puts[i]? = some p → ∃ q, c₀.puts[i]? = some q ∧ p.target = q.target ∧
    (i ∈ rest → p.Kept q.stream c.volume)
  apart : ∀ i p j q, i ∈ rest → j ∈ rest → i ≠ j → c.puts[i]? = some p → c.puts[j]? = some q →
    p.isUnderway = true → q.isUnderway = true → p.part.place ≠ q.part.place
  complete : ∀ q ∈ c₀.puts, c₀.Complete c q.target.place

/-- No part has the name of a destination. -/
def Named (c : Crowd) : Prop := ∀ p ∈ c.puts, ∀ q ∈ c.puts, p.part.place ≠ q.target.place

theorem step_of_none {i : Nat} (h : c.puts[i]? = none) : c.step i = c := by
  simp only [step, h]

theorem step_of_some {i : Nat} {p : Put} (h : c.puts[i]? = some p) :
    (c.step i).volume = (p.step c.volume).1 ∧
      ∀ j, (c.step i).puts[j]? = if j = i then some (p.step c.volume).2 else c.puts[j]? := by
  obtain ⟨inside, -⟩ := List.getElem?_eq_some_iff.mp h
  simp only [step, h, true_and]
  intro j
  rw [List.getElem?_set]
  by_cases hj : j = i
  · rw [if_pos hj.symm, if_pos inside, if_pos hj]
  · rw [if_neg (Ne.symm hj), if_neg hj]

theorem part_congr {p q : Put} (h : p.target = q.target) : p.part = q.part := by
  rw [Put.part, Put.part, h]

/-- A transfer takes its turn: it was `q` at the start, is `p` before its operation and `p'` after it. -/
structure Turn (c₀ c c' : Crowd) (i : Nat) (q p p' : Put) : Prop where
  start : c₀.puts[i]? = some q
  found : c.puts[i]? = some p
  target : p.target = q.target
  fair : Put.Fair q.stream c.volume p c'.volume p'
  puts : ∀ j, c'.puts[j]? = if j = i then some p' else c.puts[j]?
  atRest : ∀ result, p.stage = .done result → p' = p

namespace Turn

variable {c' : Crowd} {i : Nat} {q p p' : Put}

/-- Another transfer that is under way and will go on has another part. -/
theorem part_ne (t : Turn c₀ c c' i q p p') (h : Undisturbed c₀ c (i :: rest))
    (alone : ∀ j ∈ rest, j ≠ i → c.takes i j = false) (active : p.opensNext = true ∨ p.isUnderway = true) {j : Nat}
    {r : Put} (hj : j ∈ rest) (other : j ≠ i) (hr : c.puts[j]? = some r) (underway : r.isUnderway = true) :
    p.part.place ≠ r.part.place := by
  intro same
  rcases active with opens | both
  · have free := alone j hj other
    simp only [takes, t.found, hr, opens, underway, same, beq_self_eq_true, Bool.and_self] at free
    cases free
  · exact h.apart i p j r List.mem_cons_self (List.mem_cons_of_mem i hj) (Ne.symm other) t.found hr both underway same

/-- The part of another transfer is left alone. -/
theorem keeps (t : Turn c₀ c c' i q p p') (named : c₀.Named) (h : Undisturbed c₀ c (i :: rest))
    (alone : ∀ j ∈ rest, j ≠ i → c.takes i j = false) {j : Nat} {r : Put} (hj : j ∈ rest) (other : j ≠ i)
    (hr : c.puts[j]? = some r) (underway : r.isUnderway = true) : c.volume.Keeps c'.volume r.part.place := by
  obtain ⟨q', start', target', -⟩ := h.origin j r hr
  by_cases active : p.opensNext = true ∨ p.isUnderway = true
  · refine t.fair.elsewhere _ (t.part_ne h alone active hj other hr underway).symm ?_
    rw [part_congr target', t.target]
    exact named q' (List.mem_of_getElem? start') q (List.mem_of_getElem? t.start)
  · rw [not_or, Bool.not_eq_true, Bool.not_eq_true] at active
    exact t.fair.idle active.1 active.2 _

/-- Transfers that have ended stay as they are. -/
theorem ended (t : Turn c₀ c c' i q p p') {j : Nat} {r : Put} (hr : c.puts[j]? = some r)
    {result : Except Problem Nat} (stage : r.stage = .done result) : c'.puts[j]? = some r := by
  rw [t.puts]
  split
  · subst j
    obtain rfl := Option.some.inj (t.found.symm.trans hr)
    rw [t.atRest _ stage]
  · exact hr

/-- A place that is left alone stays complete. -/
theorem complete_of_keeps (t : Turn c₀ c c' i q p p') {l : Location} (h : c₀.Complete c l)
    (same : c.volume.Keeps c'.volume l) : c₀.Complete c' l := by
  rcases h with initial | ⟨j, q', r, chunks, start, place, all, now, stage, content⟩
  · exact Or.inl (same.contentAt?_eq.trans initial)
  · exact Or.inr ⟨j, q', r, chunks, start, place, all, t.ended now stage, stage, same.contentAt?_eq.trans content⟩

/-- The destination of the transfer is left alone or shows all of its stream; the others are left alone. -/
theorem complete (t : Turn c₀ c c' i q p p') (named : c₀.Named) {q' : Put} (hq' : q' ∈ c₀.puts)
    (h : c₀.Complete c q'.target.place) : c₀.Complete c' q'.target.place := by
  by_cases here : q'.target.place = p.target.place
  · rcases t.fair.shown with keeps | ⟨chunks, all, stage, content⟩
    · exact t.complete_of_keeps h (here ▸ keeps)
    · refine Or.inr ⟨i, q, p', chunks, t.start, ?_, all, ?_, stage, ?_⟩
      · rw [here, t.target]
      · rw [t.puts, if_pos rfl]
      · rw [here, ← t.fair.target]
        exact content
  · refine t.complete_of_keeps h (t.fair.elsewhere _ ?_ here)
    rw [part_congr t.target]
    exact (named q (List.mem_of_getElem? t.start) q' hq').symm

end Turn

/-- Whoever takes an operation may rely on its part. -/
theorem Undisturbed.turn {i : Nat} {p : Put} (named : c₀.Named) (h : Undisturbed c₀ c (i :: rest))
    (found : c.puts[i]? = some p) : ∃ q, Turn c₀ c (c.step i) i q p (p.step c.volume).2 := by
  obtain ⟨q, start, target, kept⟩ := h.origin i p found
  have apart : p.part.place ≠ p.target.place := by
    rw [part_congr target, target]
    exact named q (List.mem_of_getElem? start) q (List.mem_of_getElem? start)
  obtain ⟨volume, puts⟩ := step_of_some found
  have fair := Put.fair_step h.sound (kept List.mem_cons_self) apart
  rw [← volume] at fair
  refine ⟨q, start, found, target, fair, puts, fun result stage => ?_⟩
  simp only [Put.step, stage]

/-- One operation: whoever takes it keeps its part, and the others that will go on are left alone. -/
theorem Undisturbed.step {i : Nat} (named : c₀.Named) (h : Undisturbed c₀ c (i :: rest))
    (alone : ∀ j ∈ rest, j ≠ i → c.takes i j = false) : Undisturbed c₀ (c.step i) rest := by
  have later : ∀ {j}, j ∈ rest → j ∈ i :: rest := List.mem_cons_of_mem i
  cases found : c.puts[i]? with
  | none =>
    rw [step_of_none found]
    refine ⟨h.sound, fun j p hp => ?_, fun j p k q hj hk => h.apart j p k q (later hj) (later hk), h.complete⟩
    obtain ⟨q, start, target, kept⟩ := h.origin j p hp
    exact ⟨q, start, target, fun hj => kept (later hj)⟩
  | some p =>
    obtain ⟨q, t⟩ := h.turn named found
    refine ⟨t.fair.sound, fun j r hr => ?_, fun j r k r' hj hk different hr hr' underway underway' => ?_,
      fun q' hq' => t.complete named hq' (h.complete q' hq')⟩
    · rw [t.puts] at hr
      split at hr
      · subst j
        obtain rfl := Option.some.inj hr
        exact ⟨q, t.start, t.fair.target.trans t.target, fun _ => t.fair.kept⟩
      · obtain ⟨q', start', target', kept'⟩ := h.origin j r hr
        exact ⟨q', start', target', fun hj => (kept' (later hj)).frame (t.keeps named h alone hj ‹_› hr)⟩
    · -- Two that are under way: only the one whose turn it was can be so for the first time.
      rw [t.puts] at hr hr'
      split at hr <;> split at hr'
      · exact absurd (‹j = i›.trans ‹k = i›.symm) different
      · obtain rfl := Option.some.inj hr
        rw [part_congr t.fair.target]
        exact t.part_ne h alone (t.fair.begun underway) hk ‹_› hr' underway'
      · obtain rfl := Option.some.inj hr'
        rw [part_congr t.fair.target]
        exact (t.part_ne h alone (t.fair.begun underway') hj ‹_› hr underway).symm
      · exact h.apart j r k r' (later hj) (later hk) different hr hr' underway underway'

theorem Undisturbed.run (named : c₀.Named) {schedule : List Nat} (h : Undisturbed c₀ c schedule)
    (exclusive : c.Exclusive schedule) : Undisturbed c₀ (c.run schedule) [] := by
  induction schedule generalizing c with
  | nil => exact h
  | cons i rest ih => exact ih (h.step named exclusive.1) exclusive.2

/-- Whatever the order of the file operations of several transfers, at every moment each of their destinations
shows what it showed at first, or all that one of the transfers to it has received, which then has ended. This needs
that no part has the name of a destination, and that a transfer whose part is opened by another one takes no further
operation. -/
theorem visible_files_complete {c : Crowd} (new : ∀ p ∈ c.puts, p.stage = .preparing) (sound : c.volume.Sound)
    (named : ∀ p ∈ c.puts, ∀ q ∈ c.puts, p.part.place ≠ q.target.place) {schedule : List Nat}
    (exclusive : c.Exclusive schedule) : ∀ q ∈ c.puts, c.Complete (c.run schedule) q.target.place := by
  have start : Undisturbed c c schedule := by
    refine ⟨sound, fun i p hp => ⟨p, hp, rfl, fun _ => ?_⟩, fun i p j q _ _ _ hp _ underway => ?_, fun q _ => Or.inl rfl⟩
    · simp only [Put.Kept, new p (List.mem_of_getElem? hp)]
    · simp only [Put.isUnderway, new p (List.mem_of_getElem? hp), Bool.false_eq_true] at underway
  exact (start.run named exclusive).complete

/-- An output on its way to `base/a`, another one to the same destination, and one to `base/b`. -/
def threeOutputs : Crowd where
  volume := {}
  puts := [
    { target := .ofText "base/a", stream := [.ok [1], .ok [2]] },
    { target := .ofText "base/a", stream := [.ok [3], .ok [4]] },
    { target := .ofText "base/b", stream := [.ok [5], .error .cancelled] }]

/-- The first output is given up after one piece, and the second one opens its part again. -/
def givenUp : List Nat := [0, 0, 2, 0, 1, 2, 1, 1, 2, 1, 1, 2, 1]

theorem visible_files_complete_given_up :
    threeOutputs.Exclusive givenUp ∧
      (∀ q ∈ threeOutputs.puts, threeOutputs.Complete (threeOutputs.run givenUp) q.target.place) ∧
      (threeOutputs.run givenUp).volume.contentAt? ["base", "a"] = some (.bytes [3, 4]) := by
  have exclusive : threeOutputs.Exclusive givenUp := by decide +kernel
  refine ⟨exclusive, visible_files_complete ?_ Volume.Sound.empty (by decide +kernel) exclusive, by decide +kernel⟩
  simp [threeOutputs]

theorem mapM_toOption (chunks : List Bytes) :
    (chunks.map (.ok : Bytes → Except Failure Bytes)).mapM Except.toOption = some chunks := by
  induction chunks with
  | nil => rfl
  | cons chunk chunks ih =>
    rw [List.map_cons, List.mapM_cons, ih]
    rfl

/-- A place is not complete if it shows what no stream that ends well has in it. -/
theorem not_complete {c c' : Crowd} {l : Location} {b : Bytes} (shows_ : c'.volume.contentAt? l = some (.bytes b))
    (before : c.volume.contentAt? l ≠ some (.bytes b))
    (unsent : ∀ q ∈ c.puts, ((q.stream.mapM Except.toOption).map List.flatten) ≠ some b) : ¬ c.Complete c' l := by
  rintro (same | ⟨i, q, p, chunks, start, -, all, -, -, content⟩)
  · exact before (same.symm.trans shows_)
  · refine unsent q (List.mem_of_getElem? start) ?_
    have sent : chunks.flatten = b := by simpa using content.symm.trans shows_
    rw [all, mapM_toOption, Option.map_some, sent]

/-- Two outputs, one of which has the destination that the other one takes for its part. -/
def neighbours : Crowd where
  volume := {}
  puts := [
    { target := .ofText "base/a.part", stream := [.ok [1, 2]] },
    { target := .ofText "base/a", stream := [.ok [3], .error .cancelled] }]

/-- Two outputs with one destination. -/
def rivals : Crowd where
  volume := {}
  puts := [
    { target := .ofText "base/a", stream := [.ok [1, 2]] },
    { target := .ofText "base/a", stream := [.ok [3]] }]

/-- Neither condition can be left out. One after the other, the neighbours never open each other's parts; the second
one leaves an incomplete file at the first one's destination. The rivals have no part with the name of a
destination; both write to one part at once, and one of them renames it. -/
theorem incomplete_file_shows :
    (neighbours.Exclusive [0, 0, 0, 0, 0, 1, 1, 1, 1] ∧
      ∃ q ∈ neighbours.puts,
        ¬ neighbours.Complete (neighbours.run [0, 0, 0, 0, 0, 1, 1, 1, 1]) q.target.place) ∧
    (∀ p ∈ rivals.puts, ∀ q ∈ rivals.puts, p.part.place ≠ q.target.place) ∧
      ∃ q ∈ rivals.puts, ¬ rivals.Complete (rivals.run [0, 0, 1, 1, 0, 1, 0, 0]) q.target.place := by
  refine ⟨⟨by decide +kernel, _, List.mem_cons_self, not_complete (b := [3]) ?_ ?_ ?_⟩, by decide +kernel,
    _, List.mem_cons_self, not_complete (b := [3, 2]) ?_ ?_ ?_⟩
  all_goals decide +kernel

end Crowd

end Courier.Storage
