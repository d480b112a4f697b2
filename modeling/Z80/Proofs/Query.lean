import Z80.Processor.Query
import Z80.Proofs.Acceptance
import Z80.Proofs.Reset

/-!
# Queries agree with the state

The paths of a processor stand in two tables, one that lists them and one that answers them.  The tables
agree on every string, and an answer is the part of the state that its path names: the same number as the
register read by name, at the register's own width, halves that make up their pair, flags that make up
their byte (`Processor.Disclosed`).

Three answers are about more than the state of the moment.  Whether a request is pending and how many
T-states have passed are facts about all that was done to the processor since it was made.  A `Career` is a
processor with the log of these actions.  Every action may find a bus of its own, since nothing is known of
what else happens to a bus in between.  `Career.Faithful` is the invariant: the processor says about its
past what the log says.
-/

namespace Z80

/-! ## Paths -/

namespace Selector

/-- The path under which a selector is asked for. -/
def path : Selector → String
  | .a => "a"
  | .f => "f"
  | .b => "b"
  | .c => "c"
  | .d => "d"
  | .e => "e"
  | .h => "h"
  | .l => "l"
  | .af => "af"
  | .bc => "bc"
  | .de => "de"
  | .hl => "hl"
  | .shadowAF => "af'"
  | .shadowBC => "bc'"
  | .shadowDE => "de'"
  | .shadowHL => "hl'"
  | .ix => "ix"
  | .iy => "iy"
  | .sp => "sp"
  | .pc => "pc"
  | .i => "i"
  | .r => "r"
  | .ir => "ir"
  | .wz => "wz"
  | .iff1 => "iff1"
  | .iff2 => "iff2"
  | .im => "im"

/-- The kind of value that a selector stands for: a flip-flop, a byte or a word. -/
def kind : Selector → String
  | .iff1 | .iff2 => "Bool"
  | .a | .f | .b | .c | .d | .e | .h | .l | .i | .r | .im => "U8"
  | .af | .bc | .de | .hl | .shadowAF | .shadowBC | .shadowDE | .shadowHL | .ix | .iy | .sp | .pc
  | .ir | .wz => "U16"

end Selector

namespace Flag

/-- All flags, from bit 7 down to bit 0. -/
def all : List Flag :=
  [.s, .z, .y, .h, .x, .p, .n, .c]

/-- The path under which a flag is asked for. -/
def path : Flag → String
  | .s => "flags.s"
  | .z => "flags.z"
  | .y => "flags.y"
  | .h => "flags.h"
  | .x => "flags.x"
  | .p => "flags.p"
  | .n => "flags.n"
  | .c => "flags.c"

end Flag

/-- The byte in which just those flags are set that are said to be on. -/
def Flags.joined (on : Flag → Bool) : UInt8 :=
  (Flag.all.filter on).foldr (fun k byte => k.mask + byte) 0

/-- The flags, one by one, make up the register. -/
lemma Flags.joined_get (f : Flags) : Flags.joined f.get = f.toByte := by
  obtain ⟨s, z, y, h, x, p, n, c⟩ := f
  revert s z y h x p n c
  decide

/-! ## Answers -/

namespace Processor

/-- No path is listed twice. -/
lemma nodup_queryPaths : queryPaths.Nodup := by
  simp [queryPaths]

variable (p : Processor)

/-- The paths that are listed are those that are answered. -/
lemma isSome_query_iff (path : String) : (p.query path).isSome = true ↔ path ∈ queryPaths := by
  constructor
  · fun_cases query p path
    -- the last case is that of a string that no other case matches
    case case45 => exact nofun
    all_goals
      intro _
      simp [queryPaths]
  · have hall : (queryPaths.all fun path => (p.query path).isSome) = true := rfl
    exact List.all_eq_true.1 hall path

/-- The answer for a register is what the register reads, as a value of the register's width. -/
lemma query_path (s : Selector) :
    ∃ v, p.query s.path = some v ∧ v.kind = s.kind ∧ v.toNat = (p.registers.get s).toNat := by
  have hflag : ∀ b : Bool, b.toNat = b.toUInt16.toNat := by decide
  cases s with
  | iff1 | iff2 => exact ⟨_, rfl, rfl, hflag _⟩
  | a | f | b | c | d | e | h | l | i | r | im => exact ⟨_, rfl, rfl, (UInt8.toNat_toUInt16 _).symm⟩
  | _ => exact ⟨_, rfl, rfl, rfl⟩

/-- The answers for a pair and its halves are a word and the two bytes that make it up. -/
def Recombines (pair upper lower : String) : Prop :=
  ∃ hi lo, p.query upper = some (.byte hi) ∧ p.query lower = some (.byte lo) ∧
    p.query pair = some (.word (word hi lo))

/-- The index registers are made up of their halves. -/
lemma recombines_index : p.Recombines "ix" "ixh" "ixl" ∧ p.Recombines "iy" "iyh" "iyl" := by
  constructor
  · refine ⟨_, _, rfl, rfl, ?_⟩
    rw [word_high_low]
    rfl
  · refine ⟨_, _, rfl, rfl, ?_⟩
    rw [word_high_low]
    rfl

/-- The flag register is made up of its flags. -/
lemma query_flags :
    ∃ on : Flag → Bool, (∀ k : Flag, p.query k.path = some (.bool (on k))) ∧
      p.query "f" = some (.byte (Flags.joined on)) := by
  refine ⟨p.registers.f.get, fun k => ?_, ?_⟩
  · cases k <;> rfl
  · rw [Flags.joined_get]
    rfl

/-- What a processor answers is the state that it is in. -/
structure Disclosed : Prop where
  /-- There is an answer just for the paths that are listed. -/
  answered : ∀ path, (p.query path).isSome = true ↔ path ∈ queryPaths
  /-- The answer for a register is what the register reads, as a value of the register's width. -/
  register : ∀ s : Selector, ∃ v, p.query s.path = some v ∧ v.kind = s.kind ∧
    v.toNat = (p.registers.get s).toNat
  /-- The index registers are made up of their halves. -/
  index : p.Recombines "ix" "ixh" "ixl" ∧ p.Recombines "iy" "iyh" "iyl"
  /-- The address latch has two names. -/
  latch : p.query "memptr" = p.query "wz"
  /-- The flag register is made up of its flags. -/
  flags : ∃ on : Flag → Bool, (∀ k : Flag, p.query k.path = some (.bool (on k))) ∧
    p.query "f" = some (.byte (Flags.joined on))
  /-- The halt line is answered as it is. -/
  halted : p.query "halted" = some (.bool p.registers.halted)

/-- Every processor answers with its state. -/
lemma disclosed : p.Disclosed where
  answered := p.isSome_query_iff
  register := p.query_path
  index := p.recombines_index
  latch := rfl
  flags := p.query_flags
  halted := rfl

end Processor

/-! ## The past of a processor -/

/-- An action on a processor, with the bus that it finds. -/
structure Visit where
  /-- The kind of bus. -/
  {β : Type}
  /-- It is a bus. -/
  [isBus : Bus β]
  /-- The bus. -/
  bus : β
  /-- The action. -/
  action : Action

attribute [instance] Visit.isBus

/-- What there is to tell of an action that was carried out. -/
structure Deed where
  /-- The action. -/
  action : Action
  /-- The interrupt that it reported as accepted, if there was one. -/
  accepted : Option Interrupt
  /-- The T-states that it returned. -/
  duration : Nat

namespace Deed

/-- Whether the action was a step. -/
def isStep (d : Deed) : Bool :=
  match d.action with
  | .step => true
  | _ => false

/-- A maskable interrupt was requested. -/
def Requests (d : Deed) : Prop :=
  (∃ data, d.action = .interrupt data) ∨ d.action = .requestInterrupt

/-- A maskable interrupt was accepted, or the request was withdrawn, or the processor was reset. -/
def SettlesRequest (d : Deed) : Prop :=
  (∃ data, d.accepted = some (.maskable data)) ∨ d.action = .clearInterrupt ∨ d.action = .reset

/-- A non-maskable interrupt was requested. -/
def RequestsNmi (d : Deed) : Prop :=
  d.action = .nmi

/-- A non-maskable interrupt was accepted, or the processor was reset. -/
def SettlesNmi (d : Deed) : Prop :=
  d.accepted = some .nonMaskable ∨ d.action = .reset

/-- The T-states that the steps among some actions returned. -/
def elapsed (log : List Deed) : Nat :=
  ((log.filter isStep).map duration).sum

end Deed

/-- A processor with the log of what was done to it since it was made, the latest first. -/
structure Career where
  /-- The processor. -/
  processor : Processor
  /-- The log. -/
  log : List Deed

namespace Career

/-- A processor that has just been made. -/
def new (config : Config) : Career where
  processor := .new config
  log := []

/-- Carries out an action and puts it in the log. -/
def act (t : Career) (v : Visit) : Career :=
  let s := t.processor.act v.bus v.action
  { processor := s.processor
    log := { action := v.action, accepted := s.accepted?, duration := s.duration } :: t.log }

/-- Carries out actions, the first one first. -/
def actAll (t : Career) (visits : List Visit) : Career :=
  visits.foldl act t

/-- The processor says about its past what the log says. -/
structure Faithful (t : Career) : Prop where
  /-- A maskable request waits that was made and not accepted, withdrawn or reset since. -/
  request : t.processor.interrupts.request.isSome = true ↔
    DueSince Deed.Requests Deed.SettlesRequest t.log
  /-- A non-maskable request waits that was made and not accepted or reset since. -/
  nmi : t.processor.interrupts.nmi = true ↔ DueSince Deed.RequestsNmi Deed.SettlesNmi t.log
  /-- The count of T-states is what all steps took together. -/
  ticks : t.processor.ticks = Deed.elapsed t.log

/-- A new processor has no past. -/
lemma faithful_new (config : Config) : (new config).Faithful where
  request := by simp [new, Processor.new, Interrupts.idle]
  nmi := by simp [new, Processor.new, Interrupts.idle]
  ticks := rfl

variable {t : Career}

/-- A step keeps the processor in line with the log. -/
lemma Faithful.step (h : t.Faithful) {β : Type} [Bus β] (bus : β) :
    (t.act { bus, action := .step }).Faithful where
  request := by
    show (t.processor.step bus).processor.interrupts.request.isSome = true ↔ DueSince _ _ (_ :: t.log)
    have hwaits : (t.processor.step bus).processor.interrupts.request.isSome = true ↔
        t.processor.interrupts.request.isSome = true ∧
          ∀ found, (t.processor.step bus).accepted? ≠ some (.maskable found) := by
      simp only [Option.isSome_iff_exists, t.processor.request_step bus, exists_and_right]
    rw [hwaits, h.request, dueSince_cons]
    simp [Deed.Requests, Deed.SettlesRequest, and_comm, Processor.act]
  nmi := by
    show (t.processor.step bus).processor.interrupts.nmi = true ↔ DueSince _ _ (_ :: t.log)
    rw [t.processor.nmi_step bus, h.nmi, dueSince_cons]
    simp [Deed.RequestsNmi, Deed.SettlesNmi, and_comm, Processor.act]
  ticks := by
    show (t.processor.step bus).processor.ticks = (t.processor.step bus).duration + Deed.elapsed t.log
    rw [t.processor.ticks_step bus, h.ticks, Nat.add_comm]

/-- An action that takes no step keeps a processor in line with the log if it changes what waits as the
action says, and not the count of T-states. -/
lemma Faithful.still (h : t.Faithful) (p : Processor) (action : Action)
    (hrequest : p.interrupts.request.isSome = true ↔
      ((∃ data, action = .interrupt data) ∨ action = .requestInterrupt) ∨
        ¬ (action = .clearInterrupt ∨ action = .reset) ∧
          t.processor.interrupts.request.isSome = true)
    (hnmi : p.interrupts.nmi = true ↔
      action = .nmi ∨ ¬ action = .reset ∧ t.processor.interrupts.nmi = true)
    (hticks : p.ticks = t.processor.ticks) (haction : ¬ action = .step) :
    Faithful
      { processor := p
        log := { action, accepted := none, duration := 0 } :: t.log } where
  request := by
    rw [hrequest, h.request, dueSince_cons]
    simp [Deed.Requests, Deed.SettlesRequest]
  nmi := by
    rw [hnmi, h.nmi, dueSince_cons]
    simp [Deed.RequestsNmi, Deed.SettlesNmi]
  ticks := by
    rw [hticks, h.ticks]
    cases action with
    | step => exact absurd rfl haction
    | _ => rfl

/-- Every action keeps the processor in line with the log. -/
lemma Faithful.act (h : t.Faithful) (v : Visit) : (t.act v).Faithful := by
  obtain ⟨bus, action⟩ := v
  cases action with
  | step => exact h.step bus
  | set s w =>
    refine h.still (t.processor.set s w) _ ?_ ?_ rfl nofun
    · simp [Processor.set]
    · simp [Processor.set]
  | restore k =>
    refine h.still (t.processor.restore k) _ ?_ ?_ rfl nofun
    · simp [Processor.restore]
    · simp [Processor.restore]
  | interrupt data =>
    refine h.still (t.processor.interrupt data) _ ?_ ?_ rfl nofun
    · simp [Processor.interrupt, Interrupts.raise]
    · simp [Processor.interrupt, Interrupts.raise]
  | requestInterrupt =>
    refine h.still t.processor.requestInterrupt _ ?_ ?_ rfl nofun
    · simp [Processor.requestInterrupt, Processor.interrupt, Interrupts.raise]
    · simp [Processor.requestInterrupt, Processor.interrupt, Interrupts.raise]
  | clearInterrupt =>
    refine h.still t.processor.clearInterrupt _ ?_ ?_ rfl nofun
    · simp [Processor.clearInterrupt, Interrupts.withdraw]
    · simp [Processor.clearInterrupt, Interrupts.withdraw]
  | nmi =>
    refine h.still t.processor.nmi _ ?_ ?_ rfl nofun
    · simp [Processor.nmi, Interrupts.latchNmi]
    · simp [Processor.nmi, Interrupts.latchNmi]
  | reset =>
    refine h.still t.processor.reset _ ?_ ?_ rfl nofun
    · simp [Processor.reset, Interrupts.idle]
    · simp [Processor.reset, Interrupts.idle]

/-- Any actions keep the processor in line with the log. -/
lemma Faithful.actAll (h : t.Faithful) (visits : List Visit) : (t.actAll visits).Faithful := by
  induction visits generalizing t with
  | nil => exact h
  | cons v visits ih => exact ih (h.act v)

/-- No action adds more than the longest step to the T-states of the log. -/
lemma elapsed_act_le (t : Career) (v : Visit) :
    Deed.elapsed (t.act v).log ≤ Deed.elapsed t.log + 23 := by
  obtain ⟨bus, action⟩ := v
  cases action with
  | step =>
    have hstep : (t.processor.step bus).duration ≤ 23 := t.processor.duration_step_le bus
    show (t.processor.step bus).duration + Deed.elapsed t.log ≤ _
    omega
  | _ => exact Nat.le_add_right _ _

/-- Any actions add no more than that for each of them. -/
lemma elapsed_actAll_le (t : Career) (visits : List Visit) :
    Deed.elapsed (t.actAll visits).log ≤ Deed.elapsed t.log + 23 * visits.length := by
  induction visits generalizing t with
  | nil => exact le_rfl
  | cons v visits ih =>
    have hfirst := t.elapsed_act_le v
    have hrest : Deed.elapsed (t.actAll (v :: visits)).log ≤ _ := ih (t.act v)
    rw [List.length_cons]
    omega

/-- The T-states of a new processor fit into 64 bits for the first 2 ^ 59 actions. -/
lemma elapsed_lt_limit (config : Config) {visits : List Visit} (hvisits : visits.length ≤ 2 ^ 59) :
    Deed.elapsed ((new config).actAll visits).log < Ticks.limit := by
  have hlog : Deed.elapsed ((new config).actAll visits).log ≤ 0 + 23 * visits.length :=
    (new config).elapsed_actAll_le visits
  rw [Ticks.limit]
  omega

end Career

/-- **Queries agree with the state.**  No path is listed twice, and every processor, whatever its state,
answers just the paths that are listed, with the part of the state that they name.  After any actions on a
new processor, each on a bus of its own, a maskable interrupt is said to be pending just if one has been
requested and since then none was accepted, the request was not withdrawn and there was no reset, and a
non-maskable one just if one has been requested and since then none was accepted and there was no reset.
The count of T-states is the sum of what all steps returned, and no more than the longest step takes for
each action. -/
theorem query_law (config : Config) (visits : List Visit) :
    Processor.queryPaths.Nodup ∧ (∀ p : Processor, p.Disclosed) ∧
    let t := (Career.new config).actAll visits
    (∃ pending, t.processor.query "int_pending" = some (.bool pending) ∧
      (pending = true ↔ DueSince Deed.Requests Deed.SettlesRequest t.log)) ∧
    (∃ pending, t.processor.query "nmi_pending" = some (.bool pending) ∧
      (pending = true ↔ DueSince Deed.RequestsNmi Deed.SettlesNmi t.log)) ∧
    t.processor.query "ticks" = some (.count (Deed.elapsed t.log)) ∧
    Deed.elapsed t.log ≤ 23 * visits.length := by
  have h : ((Career.new config).actAll visits).Faithful := (Career.faithful_new config).actAll visits
  refine ⟨Processor.nodup_queryPaths, Processor.disclosed, ⟨_, rfl, h.request⟩, ⟨_, rfl, h.nmi⟩, ?_, ?_⟩
  · rw [← h.ticks]
    rfl
  · rw [← Nat.zero_add (23 * visits.length)]
    exact (Career.new config).elapsed_actAll_le visits

end Z80
