/-
# Courier.Proofs.Storage.Outcome -- what a transfer leaves when it is alone

A transfer that nobody disturbs makes its directory, opens its part, writes what it receives, and then either
removes the part again, leaves it for a rollback, or gives it the name of the destination. `Outcome` lists the
ways in which this can end, each with the volume that it leaves; everything else about single transfers is read
off there.

Up to the last step nothing shows at the destination, and a stream that fails, or that the disk does not take,
leaves no part behind. The last step is the one that has no way back: a part that cannot take the name of the
destination stays where it is, with all of the stream in it.
-/
import Courier.Proofs.Files.Lookup
import Courier.Proofs.Storage.Destinations

namespace Courier.Storage

/-! ## Up to the part -/

/-- The directory of a destination is made, as far as that is possible. -/
def prepared (v : Volume) (target : Path) : Except Fault Unit × Volume :=
  match target.parent? with
  | none => (.ok (), v)
  | some parent => v.ensureDirectory [] parent

theorem shortWrites_prepared (v : Volume) (target : Path) : (prepared v target).2.shortWrites = v.shortWrites := by
  unfold prepared
  split
  · rfl
  · exact Volume.shortWrites_makeDirectories ..

/-- The part of a destination can be opened; it is open with a number, on a volume. -/
def Opens (v : Volume) (target : Path) (n : Nat) (v' : Volume) : Prop :=
  ∃ made, prepared v target = (.ok (), made) ∧ made.create [] (partPath target) = .ok (n, v')

/-- Chunks are written into an open file, one behind the other. -/
def filled (v : Volume) (n : Nat) : Nat → List Bytes → Volume
  | _, [] => v
  | offset, chunk :: rest => filled (v.overwrite n offset chunk) n (offset + chunk.length) rest

theorem nodes_filled (v : Volume) (n offset : Nat) (chunks : List Bytes) :
    (filled v n offset chunks).nodes = v.nodes := by
  induction chunks generalizing v offset with
  | nil => rfl
  | cons chunk rest ih => exact ih _ _

theorem sound_filled {v : Volume} (sound : v.Sound) (n offset : Nat) (chunks : List Bytes) :
    (filled v n offset chunks).Sound := by
  induction chunks generalizing v offset with
  | nil => exact sound
  | cons chunk rest ih => exact ih (sound.overwrite n offset chunk) _

theorem content_filled {v : Volume} {n : Nat} {old : Bytes} (h : v.content n = .bytes old) (chunks : List Bytes)
    (m : Nat) : (filled v n old.length chunks).content m =
      if m = n then .bytes (old ++ chunks.flatten) else v.content m := by
  induction chunks generalizing v old with
  | nil =>
    rw [filled, List.flatten_nil, List.append_nil, ← h]
    split
    · rw [‹m = n›]
    · rfl
  | cons chunk rest ih =>
    have written := Volume.content_overwrite h chunk
    rw [filled, ← List.length_append, ih (by rw [written, if_pos rfl]), written]
    split
    · rw [List.flatten_cons, List.append_assoc]
    · rfl

/-- A volume is another one with these pieces in an open file; what the disk will make of coming writes does not
matter. -/
structure Written (v : Volume) (n offset : Nat) (pieces : List Bytes) (w : Volume) : Prop where
  nodes : w.nodes = v.nodes
  contents : w.contents = (filled v n offset pieces).contents

namespace Written

variable {v w : Volume} {n offset : Nat} {pieces : List Bytes}

theorem refl (v : Volume) (n offset : Nat) : Written v n offset [] v := ⟨rfl, rfl⟩

theorem content (h : Written v n offset pieces w) (m : Nat) : w.content m = (filled v n offset pieces).content m := by
  unfold Volume.content
  rw [h.contents]

theorem sound (h : Written v n offset pieces w) (sound : v.Sound) : w.Sound := by
  refine (sound_filled sound n offset pieces).congr ?_ fun m hm => ?_
  · unfold Volume.file?
    rw [Volume.get?_congr (h.nodes.trans (nodes_filled ..).symm)]
  · rw [Volume.lt_freshInode] at hm ⊢
    rwa [h.contents]

/-- Contents alone decide what they become. -/
theorem contents_filled {v v' : Volume} (same : v.contents = v'.contents) (n offset : Nat) (pieces : List Bytes) :
    (filled v n offset pieces).contents = (filled v' n offset pieces).contents := by
  induction pieces generalizing v v' offset with
  | nil => exact same
  | cons piece rest ih =>
    apply ih
    unfold Volume.overwrite Volume.setContent Volume.content
    rw [same]

theorem cons {piece : Bytes} (h : Written (v.answered.overwrite n offset piece) n (offset + piece.length) pieces w) :
    Written v n offset (piece :: pieces) w where
  nodes := h.nodes
  contents := h.contents.trans (contents_filled (by rfl) n _ pieces)

end Written

/-- What is written of a stream, piece by piece, and what cuts it short: its own failure, or a write or the flush
at the end that the disk does not take. -/
def received : List (Except Failure Bytes) → List (Option ShortWrite) → List Bytes × Option Problem
  | [], answers => ([], answers.head?.join.map fun short => .system short.fault)
  | .error f :: _, _ => ([], some (.stream f))
  | .ok chunk :: rest, answers =>
    match answers.head?.join with
    | none => (chunk :: (received rest answers.tail).1, (received rest answers.tail).2)
    | some short => ([chunk.take short.taken], some (.system short.fault))

/-! ## One operation after the other -/

namespace Put

theorem steps_done {p : Put} {result : Except Problem Nat} (ended : p.stage = .done result) (k : Nat) (v : Volume) :
    steps k v p = (v, p) := by
  induction k with
  | zero => rfl
  | succ k ih =>
    have still : p.step v = (v, p) := by simp only [step, ended]
    rw [steps, still]
    exact ih

theorem step_preparing {v v' : Volume} {target : Path} {answer : Except Fault Unit}
    (made : prepared v target = (answer, v')) (stream : List (Except Failure Bytes)) :
    step v { target, stream } = (v', { target, stream, stage :=
      match answer with
      | .ok () => .opening
      | .error e => .done (.error (.system e)) }) := by
  unfold prepared at made
  simp only [step]
  split at made
  · cases made
    simp only [*]
  · simp only [*]
    cases answer <;> rfl

/-- A transfer that is not cut short comes to the renaming of its part. -/
theorem steps_received (k : Nat) {v : Volume} (target : Path) (n offset : Nat)
    {stream : List (Except Failure Bytes)} {pieces : List Bytes}
    (whole : received stream v.shortWrites = (pieces, none)) :
    ∃ w, Written v n offset pieces w ∧
      steps (stream.length + 1 + k) v { target, stream, stage := .writing n offset } =
        steps k w { target, stream := [], stage := .renaming (offset + pieces.flatten.length) } := by
  induction stream generalizing v offset pieces with
  | nil =>
    obtain ⟨rfl, taken⟩ := Prod.mk.inj whole
    have flushed : v.flush = (.ok (), v.answered) := by
      rw [Volume.flush, Volume.nextShort?, Option.map_eq_none_iff.mp taken]
    refine ⟨v.answered, ⟨rfl, rfl⟩, ?_⟩
    rw [List.length_nil, Nat.zero_add, Nat.add_comm, steps]
    simp only [step, flushed]
    rfl
  | cons next rest ih =>
    cases next with
    | error f => cases (Prod.mk.inj whole).2
    | ok chunk =>
      unfold received at whole
      split at whole
      · rename_i taken
        obtain ⟨rfl, more⟩ := Prod.mk.inj whole
        have wrote : v.write n offset chunk = (.ok (), v.answered.overwrite n offset chunk) := by
          rw [Volume.write, Volume.nextShort?, taken]
        obtain ⟨w, written, rest_⟩ := ih (v := v.answered.overwrite n offset chunk) (offset + chunk.length)
          (Prod.ext rfl more)
        refine ⟨w, written.cons, ?_⟩
        rw [List.length_cons, Nat.add_right_comm rest.length, Nat.add_right_comm (rest.length + 1), steps]
        simp only [step, wrote]
        rw [rest_, List.flatten_cons, List.length_append, Nat.add_assoc]
        rfl
      · cases (Prod.mk.inj whole).2

/-- A transfer that is cut short comes to what follows upon its problem. -/
theorem steps_cut (k : Nat) {v : Volume} (target : Path) (n offset : Nat)
    {stream : List (Except Failure Bytes)} {pieces : List Bytes} {problem : Problem}
    (cut : received stream v.shortWrites = (pieces, some problem)) :
    ∃ w rest m, Written v n offset pieces w ∧ k ≤ m ∧
      steps (stream.length + 1 + k) v { target, stream, stage := .writing n offset } =
        steps m w { target, stream := rest, stage := problem.aftermath } := by
  induction stream generalizing v offset pieces with
  | nil =>
    obtain ⟨rfl, unflushed⟩ := Prod.mk.inj cut
    obtain ⟨short, refused, rfl⟩ := Option.map_eq_some_iff.mp unflushed
    have flushed : v.flush = (.error short.fault, v.answered) := by
      rw [Volume.flush, Volume.nextShort?, refused]
    refine ⟨v.answered, [], k, ⟨rfl, rfl⟩, Nat.le_refl k, ?_⟩
    rw [List.length_nil, Nat.zero_add, Nat.add_comm, steps]
    simp only [step, flushed]
  | cons next rest ih =>
    have later : k ≤ rest.length + 1 + k := Nat.le_add_left ..
    have all : (next :: rest).length + 1 + k = (rest.length + 1 + k) + 1 := by
      rw [List.length_cons]
      omega
    rw [all, steps]
    cases next with
    | error f =>
      obtain ⟨rfl, rfl⟩ : [] = pieces ∧ .stream f = problem :=
        ⟨(Prod.mk.inj cut).1, Option.some.inj (Prod.mk.inj cut).2⟩
      exact ⟨v, rest, _, .refl v n offset, later, rfl⟩
    | ok chunk =>
      unfold received at cut
      split at cut
      · rename_i taken
        obtain ⟨rfl, more⟩ := Prod.mk.inj cut
        have wrote : v.write n offset chunk = (.ok (), v.answered.overwrite n offset chunk) := by
          rw [Volume.write, Volume.nextShort?, taken]
        obtain ⟨w, left, m, written, enough, rest_⟩ :=
          ih (v := v.answered.overwrite n offset chunk) (offset + chunk.length) (Prod.ext rfl more)
        refine ⟨w, left, m, written.cons, enough, ?_⟩
        simp only [step, wrote]
        exact rest_
      · rename_i short refused
        obtain ⟨rfl, rfl⟩ : [chunk.take short.taken] = pieces ∧ .system short.fault = problem :=
          ⟨(Prod.mk.inj cut).1, Option.some.inj (Prod.mk.inj cut).2⟩
        have wrote : v.write n offset chunk =
            (.error short.fault, v.answered.overwrite n offset (chunk.take short.taken)) := by
          rw [Volume.write, Volume.nextShort?, refused]
        refine ⟨_, rest, _, Written.cons (.refl _ n _), later, ?_⟩
        simp only [step, wrote]

end Put

/-- What is received as a whole is all that was sent. -/
theorem sent_of_received {stream : List (Except Failure Bytes)} {answers : List (Option ShortWrite)}
    {pieces : List Bytes} (whole : received stream answers = (pieces, none)) : stream = pieces.map .ok := by
  induction stream generalizing answers pieces with
  | nil =>
    obtain ⟨rfl, -⟩ := Prod.mk.inj whole
    rfl
  | cons next rest ih =>
    cases next with
    | error f => cases (Prod.mk.inj whole).2
    | ok chunk =>
      unfold received at whole
      split at whole
      · obtain ⟨rfl, more⟩ := Prod.mk.inj whole
        have later : received rest answers.tail = (_, none) := Prod.ext rfl more
        rw [List.map_cons, ← ih later]
      · cases (Prod.mk.inj whole).2

theorem whole_ne_failed (chunks received : List Bytes) (f : Failure) (rest : List (Except Failure Bytes)) :
    chunks.map .ok ≠ received.map .ok ++ .error f :: rest := by
  intro same
  have failure : .error f ∈ chunks.map (.ok : Bytes → Except Failure Bytes) := by
    rw [same]
    simp
  simp at failure

/-! ## How a transfer ends -/

/-- The ways in which a transfer to a path can end, with what it reports and the volume that it leaves. -/
inductive Outcome (v : Volume) (target : Path) (stream : List (Except Failure Bytes)) :
    Except Problem Nat → Volume → Prop where
  /-- The directory cannot be made. -/
  | barred {e : Fault} {v' : Volume} (made : prepared v target = (.error e, v')) :
      Outcome v target stream (.error (.system e)) v'
  /-- The part cannot be opened. -/
  | unopened {e : Fault} {v' : Volume} (made : prepared v target = (.ok (), v'))
      (refused : v'.create [] (partPath target) = .error e) : Outcome v target stream (.error (.system e)) v'
  /-- The stream is cancelled; the part stays for a rollback. -/
  | stopped {n : Nat} {v' w : Volume} {pieces : List Bytes} {problem : Problem} (opens : Opens v target n v')
      (cut : received stream v.shortWrites = (pieces, some problem)) (cancelled : problem.failure.isCancelled = true)
      (wrote : Written v' n 0 pieces w) : Outcome v target stream (.error problem) w
  /-- The stream fails, or the disk does not take it; the part is removed. -/
  | failed {n : Nat} {v' w : Volume} {pieces : List Bytes} {problem : Problem} (opens : Opens v target n v')
      (cut : received stream v.shortWrites = (pieces, some problem)) (genuine : problem.failure.isCancelled = false)
      (wrote : Written v' n 0 pieces w) :
      Outcome v target stream (.error problem) (w.erase (partPath target).place)
  /-- The part cannot take the name of the destination. -/
  | refused {n : Nat} {v' w : Volume} {chunks : List Bytes} {e : Fault} (opens : Opens v target n v')
      (whole : received stream v.shortWrites = (chunks, none)) (wrote : Written v' n 0 chunks w)
      (refused : w.rename [] (partPath target) target = .error e) :
      Outcome v target stream (.error (.system e)) w
  | stored {n : Nat} {v' w v'' : Volume} {chunks : List Bytes} (opens : Opens v target n v')
      (whole : received stream v.shortWrites = (chunks, none)) (wrote : Written v' n 0 chunks w)
      (renamed : w.rename [] (partPath target) target = .ok v'') :
      Outcome v target stream (.ok chunks.flatten.length) v''

theorem Opens.holds {v v' w : Volume} {target : Path} {n : Nat} (h : Opens v target n v') {pieces : List Bytes}
    (wrote : Written v' n 0 pieces w) : w.Holds (partPath target) n := by
  obtain ⟨made, -, created⟩ := h
  exact (Volume.create_holds created).1.congr wrote.nodes

/-- Making directories and opening a file writes nothing. -/
theorem Opens.shortWrites {v v' : Volume} {target : Path} {n : Nat} (h : Opens v target n v') :
    v'.shortWrites = v.shortWrites := by
  obtain ⟨made, prepares, created⟩ := h
  rw [Volume.shortWrites_create created, ← shortWrites_prepared v target, prepares]

theorem Opens.not_barred {v v' w : Volume} {target : Path} {n : Nat} {e : Fault} (h : Opens v target n v') :
    prepared v target ≠ (.error e, w) := by
  obtain ⟨made, prepares, -⟩ := h
  rw [prepares]
  exact nofun

theorem Opens.not_unopened {v v' w : Volume} {target : Path} {n : Nat} {e : Fault} (h : Opens v target n v')
    (made : prepared v target = (.ok (), w)) : w.create [] (partPath target) ≠ .error e := by
  obtain ⟨made', prepares, created⟩ := h
  cases made.symm.trans prepares
  rw [created]
  exact nofun

/-- Where a transfer gets to once its part is open. -/
theorem outcome_writing {v v' : Volume} {target : Path} {n : Nat} (opens : Opens v target n v')
    (stream : List (Except Failure Bytes)) {w : Volume} {p : Put}
    (ran : Put.steps (stream.length + 1 + 1) v' { target, stream, stage := .writing n 0 } = (w, p)) :
    Outcome v target stream p.result w := by
  rcases cut : received stream v'.shortWrites with ⟨pieces, _ | problem⟩
  · obtain ⟨u, wrote, all⟩ := Put.steps_received 1 target n 0 cut
    rw [all, Nat.zero_add] at ran
    rw [opens.shortWrites] at cut
    simp only [Put.steps, Put.step, Put.part] at ran
    cases renamed : u.rename [] (partPath target) target with
    | ok v'' =>
      rw [renamed] at ran
      cases ran
      exact .stored opens cut wrote renamed
    | error e =>
      rw [renamed] at ran
      cases ran
      exact .refused opens cut wrote renamed
  · obtain ⟨u, rest, m, wrote, enough, left⟩ := Put.steps_cut 1 target n 0 cut
    rw [left] at ran
    rw [opens.shortWrites] at cut
    obtain ⟨m, rfl⟩ := Nat.exists_eq_add_of_le' enough
    unfold Problem.aftermath at ran
    cases cancelled : problem.failure.isCancelled with
    | true =>
      rw [cancelled, if_pos rfl, Put.steps_done rfl] at ran
      cases ran
      exact .stopped opens cut cancelled wrote
    | false =>
      have removed := (opens.holds wrote).removeIfPresent
      simp only [cancelled, Bool.false_eq_true, if_false, Put.steps, Put.step, Put.part, removed,
        Except.toOption, Option.getD_some] at ran
      rw [Put.steps_done rfl] at ran
      cases ran
      exact .failed opens cut cancelled wrote

/-- Where a transfer that runs to its end alone gets to. -/
theorem put_outcome {base target : Path} {destination : String} (accepted : resolve base destination = .ok target)
    (v : Volume) (stream : List (Except Failure Bytes)) {result : Except Problem Nat} {v' : Volume}
    (done : put base v stream destination = (result, v')) : Outcome v target stream result v' := by
  have next (k : Nat) (p : Put) (w : Volume) : Put.steps (k + 1) w p = Put.steps k (p.step w).1 (p.step w).2 := rfl
  unfold put at done
  rw [accepted] at done
  simp only [Put.bound] at done
  cases made : prepared v target with
  | mk answer v₁ =>
    rw [next, Put.step_preparing made] at done
    cases answer with
    | error e =>
      rw [Put.steps_done rfl] at done
      cases done
      exact .barred made
    | ok u =>
      rw [next] at done
      cases created : v₁.create [] (partPath target) with
      | error e =>
        simp only [Put.step, Put.part, created] at done
        rw [Put.steps_done rfl] at done
        cases done
        exact .unopened made created
      | ok opened =>
        obtain ⟨n, v₂⟩ := opened
        simp only [Put.step, Put.part, created] at done
        cases done
        exact outcome_writing ⟨v₁, made, created⟩ stream rfl

/-! ## What a transfer leaves alone -/

theorem keeps_prepared (v : Volume) (target : Path) (l : Location) : v.Keeps (prepared v target).2 l := by
  unfold prepared
  split
  · exact .refl v l
  · exact .ensureDirectory v [] _ l

theorem contents_prepared (v : Volume) (target : Path) : (prepared v target).2.contents = v.contents := by
  unfold prepared
  split
  · rfl
  · exact (Volume.file?_makeDirectories _ v [] _).2

theorem freshInode_prepared (v : Volume) (target : Path) : (prepared v target).2.freshInode = v.freshInode := by
  unfold Volume.freshInode
  rw [contents_prepared]

theorem sound_prepared {v : Volume} (sound : v.Sound) (target : Path) : (prepared v target).2.Sound := by
  unfold prepared
  split
  · exact sound
  · exact sound.ensureDirectory [] _

/-- The directories that are made lie above the destination. -/
theorem get?_prepared {base target : Path} {inner : List String} {name : String}
    (accepted : Accepted base target inner name) (down : ".." ∉ base.segments) (v : Volume) {l : Location}
    (long : target.place.length ≤ l.length) : (prepared v target).2.get? l = v.get? l := by
  unfold prepared
  split
  · rfl
  · rename_i parent found
    obtain ⟨downParent, last, place⟩ := Path.place_of_parent? (accepted.down down) found
    refine Volume.get?_makeDirectories _ downParent fun way => ?_
    have short := way.length_le
    rw [place, List.length_append, List.length_singleton] at long
    omega

theorem directory_prepared {v : Volume} {target : Path} {l : Location} (directory : v.get? l = some .directory) :
    (prepared v target).2.get? l = some .directory := by
  unfold prepared
  split
  · exact directory
  · exact Volume.directory_makeDirectories _ directory

namespace Opens

variable {v v' : Volume} {target : Path} {n : Nat}

theorem sound (h : Opens v target n v') (sound : v.Sound) : v'.Sound := by
  obtain ⟨made, prepares, created⟩ := h
  have before := sound_prepared sound target
  rw [prepares] at before
  exact before.create created

/-- The part has the number that it had before, or the next one. -/
theorem number (h : Opens v target n v') :
    v.file? (partPath target).place = some n ∨ v.file? (partPath target).place = none ∧ n = v.freshInode := by
  obtain ⟨made, prepares, created⟩ := h
  have before := (keeps_prepared v target (partPath target).place).file?
  have fresh := freshInode_prepared v target
  rw [prepares] at before fresh
  obtain ⟨number, -, -, -⟩ := Volume.create_eq_ok created
  rwa [before, fresh] at number

theorem keeps (h : Opens v target n v') (numbered : ∀ l m, v.file? l = some m → m < v.freshInode) {l : Location}
    (separate : v.Separate l (partPath target).place) : v.Keeps v' l := by
  obtain ⟨made, prepares, created⟩ := h
  have before := keeps_prepared v target
  have fresh := freshInode_prepared v target
  rw [prepares] at before fresh
  refine (before l).trans (.create (fun x m named => ?_) created ⟨separate.other, fun m named => ?_⟩)
  · rw [fresh]
    exact numbered x m ((before x).file?.symm.trans named)
  · rw [(before _).file?] at named ⊢
    exact separate.unlinked m named

/-- The part is empty when it is open. -/
theorem content (h : Opens v target n v') : v'.content n = .bytes [] := by
  obtain ⟨made, -, created⟩ := h
  obtain ⟨-, -, contents, -⟩ := Volume.create_eq_ok created
  rw [contents, if_pos rfl]

theorem content_written (h : Opens v target n v') {w : Volume} {pieces : List Bytes} (wrote : Written v' n 0 pieces w)
    (m : Nat) : w.content m = if m = n then .bytes pieces.flatten else v'.content m :=
  (wrote.content m).trans (content_filled h.content pieces m)

/-- What is written goes to the part alone. -/
theorem keeps_written (h : Opens v target n v') (numbered : ∀ l m, v.file? l = some m → m < v.freshInode) {w : Volume}
    {pieces : List Bytes} (wrote : Written v' n 0 pieces w) {l : Location}
    (separate : v.Separate l (partPath target).place) : v.Keeps w l := by
  have unnamed : v.file? l ≠ some n := by
    intro named
    rcases h.number with part | ⟨-, rfl⟩
    · exact separate.unlinked n named part
    · exact absurd (numbered l _ named) (Nat.lt_irrefl _)
  refine (h.keeps numbered separate).trans ⟨?_, fun m named => ?_⟩
  · unfold Volume.file?
    rw [Volume.get?_congr wrote.nodes]
  · rw [h.content_written wrote, if_neg]
    rintro rfl
    exact unnamed ((h.keeps numbered separate).file?.symm.trans named)

theorem directory (h : Opens v target n v') {l : Location} (directory : v.get? l = some .directory)
    (other : l ≠ (partPath target).place) : v'.get? l = some .directory := by
  obtain ⟨made, prepares, created⟩ := h
  have before : (prepared v target).2.get? l = some .directory := directory_prepared directory
  rw [prepares] at before
  exact ((Volume.create_holds created).2 l other).trans before

theorem get? (h : Opens v target n v') {base : Path} {inner : List String} {name : String}
    (accepted : Accepted base target inner name) (down : ".." ∉ base.segments) {l : Location}
    (long : target.place.length ≤ l.length) (other : l ≠ (partPath target).place) : v'.get? l = v.get? l := by
  obtain ⟨made, prepares, created⟩ := h
  have before := get?_prepared accepted down v long
  rw [prepares] at before
  exact ((Volume.create_holds created).2 l other).trans before

end Opens

namespace Outcome

variable {v v' : Volume} {target : Path} {stream : List (Except Failure Bytes)} {result : Except Problem Nat}

/-- A transfer leaves every place alone that has nothing to do with its part, and its destination if it succeeds. -/
theorem keeps_of_separate (h : Outcome v target stream result v')
    (numbered : ∀ l n, v.file? l = some n → n < v.freshInode) {l : Location}
    (separate : v.Separate l (partPath target).place) (notShown : (∀ n, result ≠ .ok n) ∨ l ≠ target.place) :
    v.Keeps v' l := by
  cases h with
  | barred made =>
    have keeps := keeps_prepared v target l
    rwa [made] at keeps
  | unopened made =>
    have keeps := keeps_prepared v target l
    rwa [made] at keeps
  | stopped opens _ _ wrote => exact opens.keeps_written numbered wrote separate
  | failed opens _ _ wrote => exact (opens.keeps_written numbered wrote separate).trans (.erase _ separate.other)
  | refused opens _ wrote => exact opens.keeps_written numbered wrote separate
  | stored opens whole wrote renamed =>
    have notTarget : l ≠ target.place := notShown.resolve_left fun other => other _ rfl
    exact (opens.keeps_written numbered wrote separate).trans (.rename renamed separate.other notTarget)

/-- Where no content has two names, that is every place besides the part. -/
theorem keeps (h : Outcome v target stream result v') (sound : v.Sound) {l : Location}
    (notPart : l ≠ (partPath target).place) (notShown : (∀ n, result ≠ .ok n) ∨ l ≠ target.place) :
    v.Keeps v' l :=
  h.keeps_of_separate sound.numbered (sound.separate notPart) notShown

/-- A transfer that does not succeed puts nothing in the place of its destination, not even a directory. -/
theorem get?_target (h : Outcome v target stream result v') {base : Path} {inner : List String} {name : String}
    (accepted : Accepted base target inner name) (down : ".." ∉ base.segments) (failed : ∀ n, result ≠ .ok n) :
    v'.get? target.place = v.get? target.place := by
  have before := get?_prepared accepted down v (Nat.le_refl target.place.length)
  have filled {n : Nat} {u w : Volume} {pieces : List Bytes} (opens : Opens v target n u)
      (wrote : Written u n 0 pieces w) : w.get? target.place = v.get? target.place := by
    rw [Volume.get?_congr wrote.nodes]
    exact opens.get? accepted down (Nat.le_refl _) accepted.apart.symm
  cases h with
  | barred made => rwa [made] at before
  | unopened made => rwa [made] at before
  | stopped opens _ _ wrote => exact filled opens wrote
  | failed opens _ _ wrote =>
    rw [Volume.get?_erase _ (opens.holds wrote).place_ne, if_neg accepted.apart.symm]
    exact filled opens wrote
  | refused opens _ wrote => exact filled opens wrote
  | stored => exact absurd rfl (failed _)

/-- What a transfer that succeeds has stored, and that its part is gone. -/
theorem stored_ok {n : Nat} (h : Outcome v target stream (.ok n) v')
    (apart : (partPath target).place ≠ target.place) :
    ∃ chunks : List Bytes, stream = chunks.map .ok ∧ n = chunks.flatten.length ∧
      v'.contentAt? target.place = some (.bytes chunks.flatten) ∧ v'.get? (partPath target).place = none := by
  cases h with
  | @stored m u w _ chunks opens whole wrote renamed =>
    obtain ⟨k, found, -, named, rfl⟩ := Volume.rename_eq renamed
    have holds := opens.holds wrote
    obtain rfl : m = k := by simpa using holds.found.symm.trans found
    refine ⟨chunks, sent_of_received whole, rfl, ?_, ?_⟩
    · have content : (w.erase (partPath target).place |>.set target.place (.file m)).content m =
          .bytes chunks.flatten := (opens.content_written wrote m).trans (if_pos rfl)
      rw [Volume.contentAt?_eq, Volume.file?_set _ named, if_pos rfl]
      exact congrArg some content
    · rw [Volume.get?_set _ named, if_neg apart, Volume.get?_erase _ holds.place_ne, if_pos rfl]

/-- After a failure a part is left behind only where the whole stream was received and written. -/
theorem part_gone_iff {e : Problem} (h : Outcome v target stream (.error e) v')
    (genuine : e.failure.isCancelled = false) (absent : v.file? (partPath target).place = none) :
    v'.file? (partPath target).place = none ↔
      ¬((∃ n w, Opens v target n w) ∧ (received stream v.shortWrites).2 = none) := by
  have before := (keeps_prepared v target (partPath target).place).file?
  cases h with
  | barred made =>
    rw [made, absent] at before
    exact iff_of_true before fun h => h.1.elim fun n ⟨w, opens⟩ => opens.not_barred made
  | unopened made refused =>
    rw [made, absent] at before
    exact iff_of_true before fun h => h.1.elim fun n ⟨w, opens⟩ => opens.not_unopened made refused
  | stopped opens cut cancelled =>
    rw [cancelled] at genuine
    cases genuine
  | failed opens cut =>
    refine iff_of_true (by rw [Volume.file?_erase, if_pos rfl]) ?_
    rw [cut]
    exact nofun
  | refused opens whole wrote =>
    refine iff_of_false ?_ (not_not.mpr ⟨⟨_, _, opens⟩, by rw [whole]⟩)
    rw [(opens.holds wrote).file?]
    exact Option.some_ne_none _

/-- The part that is left has all of the stream in it. -/
theorem part_left {e : Problem} (h : Outcome v target stream (.error e) v') {n : Nat} {w : Volume}
    (opens : Opens v target n w) {chunks : List Bytes} (whole : received stream v.shortWrites = (chunks, none)) :
    v'.contentAt? (partPath target).place = some (.bytes chunks.flatten) := by
  cases h with
  | barred made => exact absurd made opens.not_barred
  | unopened made refused => exact absurd refused (opens.not_unopened made)
  | stopped _ cut => cases whole.symm.trans cut
  | failed _ cut => cases whole.symm.trans cut
  | refused opens whole' wrote =>
    obtain ⟨rfl, -⟩ := Prod.mk.inj (whole'.symm.trans whole)
    rw [Volume.contentAt?_eq, (opens.holds wrote).file?, Option.map_some, opens.content_written wrote, if_pos rfl]

theorem sound (h : Outcome v target stream result v') (sound : v.Sound) : v'.Sound := by
  have before := sound_prepared sound target
  cases h with
  | barred made => rwa [made] at before
  | unopened made => rwa [made] at before
  | stopped opens _ _ wrote => exact wrote.sound (opens.sound sound)
  | failed opens _ _ wrote =>
    exact (wrote.sound (opens.sound sound)).removeIfPresent (opens.holds wrote).removeIfPresent
  | refused opens _ wrote => exact wrote.sound (opens.sound sound)
  | stored opens _ wrote renamed => exact (wrote.sound (opens.sound sound)).rename renamed

end Outcome

/-- A transfer to an accepted destination, alone on a volume whose disk may refuse any of its writes. If it succeeds,
all of its stream is at the destination and there is no part. If it fails without being cancelled, the destination
shows what it showed, and no part is there that was not there before, with one exception: where the part could be
opened and the whole stream was received and written, the part is left with all of it. -/
theorem put_all_or_nothing_iff {base target : Path} {v v' : Volume} (sound : v.Sound) {destination : String}
    (accepted : resolve base destination = .ok target) {stream : List (Except Failure Bytes)}
    {result : Except Problem Nat} (done : put base v stream destination = (result, v')) :
    (∀ n, result = .ok n → ∃ chunks : List Bytes, stream = chunks.map .ok ∧ n = chunks.flatten.length ∧
        v'.contentAt? target.place = some (.bytes chunks.flatten) ∧ v'.get? (partPath target).place = none) ∧
      ∀ e, result = .error e → e.failure.isCancelled = false →
        v'.contentAt? target.place = v.contentAt? target.place ∧
        (".." ∉ base.segments → v'.get? target.place = v.get? target.place) ∧
        (v.file? (partPath target).place = none →
          (v'.file? (partPath target).place = none ↔
            ¬((∃ n w, Opens v target n w) ∧ (received stream v.shortWrites).2 = none))) ∧
        ∀ n w chunks, Opens v target n w → received stream v.shortWrites = (chunks, none) →
          v'.contentAt? (partPath target).place = some (.bytes chunks.flatten) := by
  have outcome := put_outcome accepted v stream done
  obtain ⟨inner, name, -, -, below⟩ := resolve_eq_ok accepted
  constructor
  · rintro n rfl
    exact outcome.stored_ok below.apart
  · rintro e rfl genuine
    have failed : ∀ n, (.error e : Except Problem Nat) ≠ .ok n := fun n => nofun
    refine ⟨?_, fun down => outcome.get?_target below down failed, outcome.part_gone_iff genuine,
      fun n w chunks opens whole => outcome.part_left opens whole⟩
    exact (outcome.keeps sound below.apart.symm (.inl failed)).contentAt?_eq

/-- A complete file at `a`. -/
def stocked : Volume := (put (.ofText "base") {} [.ok [1]] "a").2

theorem sound_stocked : stocked.Sound := by
  have accepted : resolve (.ofText "base") "a" = .ok (.ofText "base/a") := by decide +kernel
  have done : put (.ofText "base") {} [.ok [1]] "a" = ((put (.ofText "base") {} [.ok [1]] "a").1, stocked) := rfl
  exact (put_outcome accepted {} [.ok [1]] done).sound Volume.Sound.empty

/-- The same volume on a disk that takes one more write and half of the next. -/
def almostFull : Volume :=
  { stocked with shortWrites := [none, some ⟨1, .device .other "no space left on device"⟩] }

/-- A second transfer there, whose stream ends well, leaves the file as it is, and no part. -/
theorem put_all_or_nothing_on_full_disk :
    let second := put (.ofText "base") almostFull [.ok [2], .ok [3, 4]] "a"
    almostFull.Sound ∧ resolve (.ofText "base") "a" = .ok (.ofText "base/a") ∧
      second.1 = .error (.system (.device .other "no space left on device")) ∧
      second.2.contentAt? ["base", "a"] = some (.bytes [1]) ∧ second.2.file? ["base", "a.part"] = none := by
  intro second
  have accepted : resolve (.ofText "base") "a" = .ok (.ofText "base/a") := by decide +kernel
  have sound : almostFull.Sound := sound_stocked.congr rfl fun _ hn => hn
  have result : second.1 = .error (.system (.device .other "no space left on device")) := by decide +kernel
  have done : put (.ofText "base") almostFull [.ok [2], .ok [3, 4]] "a" = (second.1, second.2) := rfl
  obtain ⟨content, -, part, -⟩ := (put_all_or_nothing_iff sound accepted done).2 _ result (by decide)
  have place : (Path.ofText "base/a").place = ["base", "a"] := by decide +kernel
  have partPlace : (partPath (.ofText "base/a")).place = ["base", "a.part"] := by decide +kernel
  rw [place] at content
  rw [partPlace] at part
  refine ⟨sound, accepted, result, content.trans (by decide +kernel), (part (by decide +kernel)).mpr ?_⟩
  rintro ⟨-, whole⟩
  exact absurd whole (by decide +kernel)

/-- A part that cannot take the name of its destination stays: a transfer to `a/b` has made `a` a directory, and
the whole stream of one to `a` is left in `a.part`, where nothing was. -/
theorem part_left_where_rename_is_refused :
    let first := (put (.ofText "base") {} [.ok [121]] "a/b").2
    let second := put (.ofText "base") first [.ok [120]] "a"
    resolve (.ofText "base") "a" = .ok (.ofText "base/a") ∧
      (partPath (.ofText "base/a")).place = ["base", "a.part"] ∧ first.get? ["base", "a.part"] = none ∧
      second.1 = .error (.system .isDirectory) ∧
      second.2.contentAt? ["base", "a.part"] = some (.bytes [120]) := by
  refine ⟨?_, ?_, ?_, ?_, ?_⟩
  all_goals decide +kernel

/-- The exception is there wherever a destination is a directory: no transfer to it succeeds, and one whose
part can be opened and whose stream is received and written leaves the part. -/
theorem part_left_beside_directory {base target : Path} {v v' w : Volume} {destination : String}
    (accepted : resolve base destination = .ok target) (directory : v.get? target.place = some .directory)
    {n : Nat} (opens : Opens v target n w) {stream : List (Except Failure Bytes)} {chunks : List Bytes}
    (whole : received stream v.shortWrites = (chunks, none)) {result : Except Problem Nat}
    (done : put base v stream destination = (result, v')) :
    (∃ e, result = .error e) ∧ v'.contentAt? (partPath target).place = some (.bytes chunks.flatten) := by
  obtain ⟨inner, name, -, -, below⟩ := resolve_eq_ok accepted
  have outcome := put_outcome accepted v _ done
  cases result with
  | error e => exact ⟨⟨e, rfl⟩, outcome.part_left opens whole⟩
  | ok m =>
    cases outcome with
    | stored opens _ wrote renamed =>
      obtain ⟨-, -, free, -⟩ := Volume.rename_eq renamed
      refine absurd ?_ free
      rw [Volume.get?_congr wrote.nodes]
      exact opens.directory directory below.apart.symm

end Courier.Storage
