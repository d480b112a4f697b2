import Mathlib.Tactic.Common
import Z80.Interrupts

/-!
# The interrupt system against its history

A few latches stand for everything that was ever asked of the interrupt system.  Here the interrupt system
is taken by itself, apart from the processor that looks at it: calls are made on it in any order, and each of
them is put in a log together with its answer (`Session`).

What waits, and how a look is to be answered, can be read off such a log without the latches
(`requestDue?`, `nmiDue` and `due`).  The invariant `Session.Faithful` says that each latch agrees with the
log.  It is kept by every call, also by a look, which uses up the latches for one look whatever it finds.
From it, `history_law` says that every look was answered by the log before it.
-/

namespace Z80

namespace Interrupts

/-! ## Calls and their log -/

/-- What can be asked of the interrupt system. -/
inductive Call
  /-- Requests a maskable interrupt with the byte of a device. -/
  | raise (data : UInt8)
  /-- Withdraws the maskable request. -/
  | withdraw
  /-- Latches a non-maskable interrupt. -/
  | latchNmi
  /-- Holds off maskable interrupts at the next look. -/
  | defer
  /-- Holds off all interrupts at the next look. -/
  | hold
  /-- Looks for an interrupt to accept. -/
  | poll (enabled : Bool)
  /-- Forgets everything. -/
  | reset
  deriving DecidableEq

/-- The answer of a call, which only a look can give, and the interrupt system after it. -/
def respond (k : Interrupts) : Call → Option Interrupt × Interrupts
  | .raise data => (none, k.raise data)
  | .withdraw => (none, k.withdraw)
  | .latchNmi => (none, k.latchNmi)
  | .defer => (none, k.defer)
  | .hold => (none, k.hold)
  | .poll enabled => k.poll enabled
  | .reset => (none, idle)

/-- A call that was made, with its answer. -/
structure Entry where
  /-- The call. -/
  call : Call
  /-- What was answered. -/
  answer : Option Interrupt
  deriving DecidableEq

/-- What is put in the log for a call. -/
def entry (k : Interrupts) (c : Call) : Entry where
  call := c
  answer := (k.respond c).1

/-- An interrupt system and the calls that were made on it, the latest first. -/
structure Session where
  /-- The interrupt system. -/
  interrupts : Interrupts := idle
  /-- The calls with their answers. -/
  log : List Entry := []

namespace Session

/-- The session after one more call. -/
def make (s : Session) (c : Call) : Session where
  interrupts := (s.interrupts.respond c).2
  log := s.interrupts.entry c :: s.log

/-- The session after a sequence of calls, the first one first. -/
def makeAll (s : Session) (calls : List Call) : Session :=
  calls.foldl make s

/-- The log holds the calls that were made. -/
lemma calls_log_makeAll (s : Session) (calls : List Call) :
    (s.makeAll calls).log.map Entry.call = calls.reverse ++ s.log.map Entry.call := by
  induction calls generalizing s with
  | nil => rfl
  | cons c calls ih =>
    show ((s.make c).makeAll calls).log.map Entry.call = _
    rw [ih, List.reverse_cons, List.append_assoc]
    rfl

end Session

/-! ## What a log says -/

namespace Entry

/-- The latches for one look do not outlast the call. -/
def spendsLatches (e : Entry) : Bool :=
  match e.call with
  | .poll _ | .reset => true
  | _ => false

/-- No non-maskable interrupt waits after the call because of an earlier one. -/
def settlesNmi (e : Entry) : Bool :=
  e.call == .reset || e.answer == some .nonMaskable

/-- The call decides which request waits after it, whatever waited before. -/
def settlesRequest (e : Entry) : Bool :=
  match e.call, e.answer with
  | .raise _, _ | .withdraw, _ | .reset, _ | _, some (.maskable _) => true
  | _, _ => false

end Entry

/-- The byte that a call requests an interrupt with. -/
def Call.raised? : Call → Option UInt8
  | .raise data => some data
  | _ => none

/-- A call was made after the latest entry of a log that settles it. -/
def calledSince (settles : Entry → Bool) (c : Call) (log : List Entry) : Bool :=
  (log.takeWhile fun e => !settles e).any fun e => e.call == c

/-- A non-maskable interrupt was requested since the last one was accepted and since the last reset. -/
def nmiDue (log : List Entry) : Bool :=
  calledSince Entry.settlesNmi .latchNmi log

/-- The byte of the latest request, if nothing has been accepted for it since, and it has been neither
withdrawn nor reset. -/
def requestDue? (log : List Entry) : Option UInt8 :=
  (log.find? Entry.settlesRequest).bind fun e => e.call.raised?

/-- How a look is to be answered after the calls of a log. -/
def due (log : List Entry) (enabled : Bool) : Option Interrupt :=
  if calledSince Entry.spendsLatches .hold log then none
  else if nmiDue log then some .nonMaskable
  else if enabled && !calledSince Entry.spendsLatches .defer log then
    (requestDue? log).map .maskable
  else none

/-- How a call is to be answered after the calls of a log. -/
def Call.due (c : Call) (log : List Entry) : Option Interrupt :=
  match c with
  | .poll enabled => Interrupts.due log enabled
  | _ => none

/-- A call is made since what settles it: by the latest entry, or before one that does not settle it. -/
lemma calledSince_cons (settles : Entry → Bool) (c : Call) (e : Entry) (log : List Entry) :
    calledSince settles c (e :: log) =
      (!settles e && (e.call == c || calledSince settles c log)) := by
  unfold calledSince
  by_cases h : settles e <;> simp [h]

/-- What is behind an entry that settles it does not count. -/
lemma exists_mem_of_calledSince {settles : Entry → Bool} {c : Call} {e : Entry} (h : settles e = true)
    (recent old : List Entry) (hcalled : calledSince settles c (recent ++ e :: old) = true) :
    ∃ q ∈ recent, q.call = c := by
  induction recent with
  | nil =>
    rw [List.nil_append, calledSince_cons, h] at hcalled
    cases hcalled
  | cons q recent ih =>
    rw [List.cons_append, calledSince_cons, Bool.and_eq_true, Bool.or_eq_true] at hcalled
    rcases hcalled.2 with hq | hrecent
    · exact ⟨q, List.mem_cons_self, eq_of_beq hq⟩
    · obtain ⟨q', hmem, hq'⟩ := ih hrecent
      exact ⟨q', List.mem_cons_of_mem q hmem, hq'⟩

/-- The latest entry decides which request is due, or leaves it to those before it. -/
lemma requestDue?_cons (e : Entry) (log : List Entry) :
    requestDue? (e :: log) = if e.settlesRequest then e.call.raised? else requestDue? log := by
  unfold requestDue?
  by_cases h : e.settlesRequest <;> simp [h]

/-- Only a request has a byte. -/
lemma Call.eq_raise {c : Call} {data : UInt8} (h : c.raised? = some data) : c = .raise data := by
  cases c with
  | raise other =>
    cases h
    rfl
  | _ => cases h

/-- Behind an entry that takes the request, only a later request is due. -/
lemma exists_mem_of_requestDue? {e : Entry} (h : e.settlesRequest = true)
    (hraised : e.call.raised? = none) (recent old : List Entry) {data : UInt8}
    (hdue : requestDue? (recent ++ e :: old) = some data) :
    ∃ q ∈ recent, q.call = .raise data := by
  unfold requestDue? at hdue
  obtain ⟨q, hfind, hq⟩ := Option.bind_eq_some_iff.1 hdue
  rw [List.find?_append, List.find?_cons_of_pos h] at hfind
  rcases Option.or_eq_some_iff.1 hfind with hrecent | ⟨-, hlatest⟩
  · exact ⟨q, List.mem_of_find?_eq_some hrecent, Call.eq_raise hq⟩
  · cases hlatest
    rw [hraised] at hq
    cases hq

/-- Only a look is answered, and with a request only if that is due. -/
lemma requestDue?_of_due {c : Call} {log : List Entry} {data : UInt8}
    (h : c.due log = some (.maskable data)) : c.raised? = none ∧ requestDue? log = some data := by
  cases c with
  | poll enabled =>
    refine ⟨rfl, ?_⟩
    simp only [Call.due, due] at h
    split_ifs at h
    · cases h
    · obtain ⟨_, hdue, hdata⟩ := Option.map_eq_some_iff.1 h
      cases hdata
      exact hdue
  | _ => cases h

/-- Only a look is answered, and with a non-maskable interrupt only if that is due. -/
lemma nmiDue_of_due {c : Call} {log : List Entry} (h : c.due log = some .nonMaskable) :
    nmiDue log = true := by
  cases c with
  | poll enabled =>
    simp only [Call.due, due] at h
    split_ifs at h with _ hnmi
    · exact hnmi
    · obtain ⟨_, -, hdata⟩ := Option.map_eq_some_iff.1 h
      cases hdata
  | _ => cases h

/-! ## One call -/

section Call

variable (k : Interrupts) (c : Call)

/-- After a call the request waits that it decides on, or else the one that waited before. -/
lemma request_respond :
    (k.respond c).2.request =
      if (k.entry c).settlesRequest then c.raised? else k.request := by
  cases c with
  | poll enabled => rcases k with ⟨_ | data, _ | _, _ | _, _ | _⟩ <;> cases enabled <;> rfl
  | _ => rfl

/-- After a call the non-maskable interrupt waits if it is requested then, or waited before and is not
accepted. -/
lemma nmi_respond :
    (k.respond c).2.nmi = (!(k.entry c).settlesNmi && (c == .latchNmi || k.nmi)) := by
  cases c with
  | poll enabled => rcases k with ⟨_ | data, _ | _, _ | _, _ | _⟩ <;> cases enabled <;> rfl
  | _ => rfl

/-- The latch that defers maskable interrupts is set by one call and cleared by every look. -/
lemma deferred_respond :
    (k.respond c).2.deferred = (!(k.entry c).spendsLatches && (c == .defer || k.deferred)) := by
  cases c with
  | poll enabled => exact k.deferred_poll enabled
  | _ => rfl

/-- The latch that holds off everything is set by one call and cleared by every look. -/
lemma held_respond :
    (k.respond c).2.held = (!(k.entry c).spendsLatches && (c == .hold || k.held)) := by
  cases c with
  | poll enabled => exact k.held_poll enabled
  | _ => rfl

/-- What a look finds. -/
lemma answer_poll (enabled : Bool) :
    (k.poll enabled).1 =
      if k.held then none
      else if k.nmi then some .nonMaskable
      else if enabled && !k.deferred then k.request.map .maskable
      else none := by
  rcases k with ⟨_ | data, _ | _, _ | _, _ | _⟩ <;> cases enabled <;> rfl

/-- A look takes what it finds and leaves the rest waiting. -/
lemma left_by_poll (enabled : Bool) :
    ((k.poll enabled).2.request =
      match (k.poll enabled).1 with
      | some (.maskable _) => none
      | _ => k.request) ∧
    (k.poll enabled).2.nmi =
      match (k.poll enabled).1 with
      | some .nonMaskable => false
      | _ => k.nmi := by
  rcases k with ⟨_ | data, _ | _, _ | _, _ | _⟩ <;> cases enabled <;> exact ⟨rfl, rfl⟩

end Call

/-! ## The latches and the log -/

/-- Every latch says what the log says. -/
structure Session.Faithful (s : Session) : Prop where
  /-- The request that waits is the one that is due. -/
  request : s.interrupts.request = requestDue? s.log
  /-- The non-maskable interrupt waits if it is due. -/
  nmi : s.interrupts.nmi = nmiDue s.log
  /-- Maskable interrupts are deferred if that was asked for since the last look. -/
  deferred : s.interrupts.deferred = calledSince Entry.spendsLatches .defer s.log
  /-- Everything is held off if that was asked for since the last look. -/
  held : s.interrupts.held = calledSince Entry.spendsLatches .hold s.log

/-- Every call of a log was answered by the log before it. -/
def Answered (log : List Entry) : Prop :=
  ∀ e old, e :: old <:+ log → e.answer = e.call.due old

namespace Session

variable {s : Session}

/-- Every call keeps the latches in line with the log. -/
lemma Faithful.make (h : s.Faithful) (c : Call) : (s.make c).Faithful where
  request := by
    show (s.interrupts.respond c).2.request = requestDue? (s.interrupts.entry c :: s.log)
    rw [request_respond, requestDue?_cons, h.request]
    rfl
  nmi := by
    show (s.interrupts.respond c).2.nmi = calledSince _ _ (s.interrupts.entry c :: s.log)
    rw [nmi_respond, calledSince_cons, h.nmi]
    rfl
  deferred := by
    show (s.interrupts.respond c).2.deferred = calledSince _ _ (s.interrupts.entry c :: s.log)
    rw [deferred_respond, calledSince_cons, h.deferred]
    rfl
  held := by
    show (s.interrupts.respond c).2.held = calledSince _ _ (s.interrupts.entry c :: s.log)
    rw [held_respond, calledSince_cons, h.held]
    rfl

/-- A call is answered by the log before it. -/
lemma Faithful.answer (h : s.Faithful) (c : Call) : (s.interrupts.respond c).1 = c.due s.log := by
  cases c with
  | poll enabled =>
    show (s.interrupts.poll enabled).1 = due s.log enabled
    rw [answer_poll, h.request, h.nmi, h.deferred, h.held]
    rfl
  | _ => rfl

/-- Whatever calls are made, the latches stay in line with the log, and every call is answered by the log
before it. -/
lemma Faithful.makeAll (h : s.Faithful) (hanswered : Answered s.log) (calls : List Call) :
    (s.makeAll calls).Faithful ∧ Answered (s.makeAll calls).log := by
  induction calls generalizing s with
  | nil => exact ⟨h, hanswered⟩
  | cons c calls ih =>
    refine ih (h.make c) fun e old hsuffix => ?_
    rcases List.suffix_cons_iff.1 hsuffix with hlatest | hearlier
    · obtain ⟨rfl, rfl⟩ := List.cons.inj hlatest
      exact h.answer c
    · exact hanswered e old hearlier

end Session

/-! ## The law -/

section Once

variable {log recent old : List Entry} {later earlier : Entry}

/-- Between two looks that find a request, it is raised again with the byte that the later one finds. -/
lemma Answered.raised_between (h : Answered log) (hlog : later :: recent ++ earlier :: old <:+ log)
    {data other : UInt8} (hlater : later.answer = some (.maskable data))
    (hearlier : earlier.answer = some (.maskable other)) :
    ∃ e ∈ recent, e.call = .raise data := by
  have hsuffix : earlier :: old <:+ log := (List.suffix_append (later :: recent) _).trans hlog
  have hdue : requestDue? (recent ++ earlier :: old) = some data :=
    (requestDue?_of_due ((h later _ hlog).symm.trans hlater)).2
  have hraised : earlier.call.raised? = none :=
    (requestDue?_of_due ((h earlier _ hsuffix).symm.trans hearlier)).1
  have hsettles : earlier.settlesRequest = true := by
    unfold Entry.settlesRequest
    rw [hearlier]
    cases earlier.call <;> rfl
  exact exists_mem_of_requestDue? hsettles hraised recent old hdue

/-- Between two looks that find a non-maskable interrupt, one is requested again. -/
lemma Answered.latched_between (h : Answered log) (hlog : later :: recent ++ earlier :: old <:+ log)
    (hlater : later.answer = some .nonMaskable) (hearlier : earlier.answer = some .nonMaskable) :
    ∃ e ∈ recent, e.call = .latchNmi := by
  have hdue : nmiDue (recent ++ earlier :: old) = true :=
    nmiDue_of_due ((h later _ hlog).symm.trans hlater)
  have hsettles : earlier.settlesNmi = true := by simp [Entry.settlesNmi, hearlier]
  exact exists_mem_of_calledSince hsettles recent old hdue

end Once

/-- What an interrupt system and the log of the calls made on it have to do with each other. -/
structure HistoryLaw (k : Interrupts) (log : List Entry) : Prop where
  /-- The next look is answered by the log. -/
  next : ∀ enabled, (k.poll enabled).1 = due log enabled
  /-- Every look in the log was answered by the log before it, and no other call was answered. -/
  answered : Answered log
  /-- The request that waits is the one that is due. -/
  request : k.request = requestDue? log
  /-- The non-maskable interrupt waits just if it is due. -/
  nmi : k.nmi = nmiDue log
  /-- A look that finds nothing, whatever holds it off, loses nothing. -/
  nothing : ∀ enabled, (k.poll enabled).1 = none →
    (k.poll enabled).2.request = k.request ∧ (k.poll enabled).2.nmi = k.nmi
  /-- A look that finds a non-maskable interrupt takes it and keeps the request. -/
  nmiTaken : ∀ enabled, (k.poll enabled).1 = some .nonMaskable →
    (k.poll enabled).2.request = k.request ∧ (k.poll enabled).2.nmi = false
  /-- A look that finds a request takes it, and no non-maskable interrupt waited. -/
  requestTaken : ∀ enabled data, (k.poll enabled).1 = some (.maskable data) →
    (k.poll enabled).2.request = none ∧ (k.poll enabled).2.nmi = k.nmi
  /-- No request is accepted twice: it has been raised again before another one is accepted. -/
  requestOnce : ∀ later recent earlier old data other,
    later :: recent ++ earlier :: old <:+ log → later.answer = some (.maskable data) →
      earlier.answer = some (.maskable other) → ∃ e ∈ recent, e.call = .raise data
  /-- No non-maskable interrupt is accepted twice. -/
  nmiOnce : ∀ later recent earlier old, later :: recent ++ earlier :: old <:+ log →
    later.answer = some .nonMaskable → earlier.answer = some .nonMaskable →
      ∃ e ∈ recent, e.call = .latchNmi

/-- The law follows from what the latches say. -/
lemma Session.Faithful.historyLaw {s : Session} (h : s.Faithful) (hanswered : Answered s.log) :
    HistoryLaw s.interrupts s.log where
  next enabled := h.answer (.poll enabled)
  answered := hanswered
  request := h.request
  nmi := h.nmi
  nothing enabled hfound := by simpa only [hfound] using s.interrupts.left_by_poll enabled
  nmiTaken enabled hfound := by simpa only [hfound] using s.interrupts.left_by_poll enabled
  requestTaken enabled data hfound := by simpa only [hfound] using s.interrupts.left_by_poll enabled
  requestOnce _ _ _ _ _ _ hlog hlater hearlier := hanswered.raised_between hlog hlater hearlier
  nmiOnce _ _ _ _ hlog hlater hearlier := hanswered.latched_between hlog hlater hearlier

/-- **The law of the history.**  Whatever calls are made on an interrupt system in which nothing waits at the
beginning, every look is answered as the log of the calls before it says, and what waits in the end is what
is due by the whole log. -/
theorem history_law (calls : List Call) :
    let s := Session.makeAll {} calls
    s.log.map Entry.call = calls.reverse ∧ HistoryLaw s.interrupts s.log := by
  intro s
  have hstart : Session.Faithful {} := ⟨rfl, rfl, rfl, rfl⟩
  have hempty : Answered [] := fun e old h => by simp at h
  obtain ⟨hfaithful, hanswered⟩ := hstart.makeAll hempty calls
  refine ⟨?_, hfaithful.historyLaw hanswered⟩
  rw [Session.calls_log_makeAll]
  exact List.append_nil _

/-- A look that is held off loses neither of the interrupts that wait, and the request of the device stays
with its latest byte. -/
example :
    ((Session.makeAll {} [.raise 0x20, .latchNmi, .hold, .defer, .poll true, .raise 0x40, .poll true,
      .poll false, .poll true, .poll true]).log.map Entry.answer).reverse.reduceOption =
        [.nonMaskable, .maskable 0x40] := by
  decide

end Interrupts

end Z80
