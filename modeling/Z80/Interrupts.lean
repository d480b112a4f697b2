/-!
# Pending interrupts

Between two instructions the processor looks for an interrupt to accept. A non-maskable
interrupt is an edge that stays latched until it is accepted. A maskable one is a request with
the byte of the requesting device; it waits until it is accepted or withdrawn. Two further
latches last for one look only: enabling interrupts defers maskable ones by one instruction,
and a prefix byte that ran by itself holds off everything.
-/

namespace Z80

/-- An interrupt that has been accepted. -/
inductive Interrupt
  /-- The non-maskable interrupt. -/
  | nonMaskable
  /-- A maskable interrupt with the byte of the requesting device. -/
  | maskable (data : UInt8)
  deriving DecidableEq

/-- The interrupts that wait and the latches that hold them off. -/
structure Interrupts where
  /-- The byte of the maskable request that waits, if there is one. -/
  request : Option UInt8 := none
  /-- Whether a non-maskable interrupt waits. -/
  nmi : Bool := false
  /-- Whether maskable interrupts are held off at the next look. -/
  deferred : Bool := false
  /-- Whether all interrupts are held off at the next look. -/
  held : Bool := false
  deriving DecidableEq

namespace Interrupts

/-- No interrupt waits and none is held off. -/
def idle : Interrupts := {}

/-- Requests a maskable interrupt; an earlier request is replaced. -/
def raise (k : Interrupts) (data : UInt8) : Interrupts :=
  { k with request := some data }

/-- Withdraws the maskable request. -/
def withdraw (k : Interrupts) : Interrupts :=
  { k with request := none }

/-- Latches a non-maskable interrupt. -/
def latchNmi (k : Interrupts) : Interrupts :=
  { k with nmi := true }

/-- Holds off maskable interrupts at the next look. -/
def defer (k : Interrupts) : Interrupts :=
  { k with deferred := true }

/-- Holds off all interrupts at the next look. -/
def hold (k : Interrupts) : Interrupts :=
  { k with held := true }

/-- Looks for an interrupt to accept. The latches for one look are used up whatever the
outcome. Nothing is accepted while held; otherwise a non-maskable interrupt comes first, and a
maskable request follows if it is let in and not deferred. -/
def poll (k : Interrupts) (enabled : Bool) : Option Interrupt × Interrupts :=
  let next := { k with deferred := false, held := false }
  if k.held then (none, next)
  else if k.nmi then (some .nonMaskable, { next with nmi := false })
  else match k.request with
    | none => (none, next)
    | some data =>
      if enabled && !k.deferred then (some (.maskable data), { next with request := none })
      else (none, next)

/-- The latches for one look are clear after it. -/
@[simp] theorem deferred_poll (k : Interrupts) (enabled : Bool) :
    (k.poll enabled).2.deferred = false := by
  unfold poll
  repeat' split
  all_goals rfl

/-- The latch that holds everything is clear after a look. -/
@[simp] theorem held_poll (k : Interrupts) (enabled : Bool) :
    (k.poll enabled).2.held = false := by
  unfold poll
  repeat' split
  all_goals rfl

end Interrupts

end Z80
