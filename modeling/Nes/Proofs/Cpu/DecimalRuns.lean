import Nes.Memory.Flat
import Nes.Proofs.Cpu.DecimalFlag

/-!
# Two steps that differ in the decimal flag

Two CPUs on one bus that differ in the decimal flag at most (`Cpu.SameButDecimal`) do the same step:
their registers and accesses agree but for the flag, in the status byte and in its copies. Both steps
have an account, and the accounts are compared part by part. An effect ignores the flag, so it does
the same as long as its reads are answered the same (`Effect.CarriesOut.same`), and an access that
moves the status byte to the stack or from it counts without the flag (`Effect.clearDecimal`).

A bus gives the same answers until it has been written a copy of the status byte: from then on it may
have seen the flag. What is read behind the copy is the vector and the first instruction of a
handler, so there the answers have to agree by assumption (`Wired.AnsweredAlike`). They need not: a
handler may begin by pulling the copy into A (`a_step_interruptedIn_ne`).
-/

set_option autoImplicit false

namespace Nes

open Wired (stackCell)

/-! ## CPUs that differ in the flag -/

namespace Cpu

/-- Two CPUs that differ in the decimal flag at most. -/
def SameButDecimal (c c' : Cpu) : Prop := c.binary = c'.binary

namespace SameButDecimal

variable {c c' : Cpu} (h : c.SameButDecimal c')
include h

/-- Only the status bytes can differ, and only in one bit. -/
theorem exists_status :
    ∃ p : UInt8, c' = { c with p } ∧ p &&& ~~~Status.decimal = c.p &&& ~~~Status.decimal := by
  have hp : c'.p &&& ~~~Status.decimal = c.p &&& ~~~Status.decimal := (congrArg Cpu.p h).symm
  have hrest : ({ c'.binary with p := c'.p } : Cpu) = { c.binary with p := c'.p } :=
    congrArg (fun b : Cpu => { b with p := c'.p }) (Eq.symm h)
  exact ⟨c'.p, hrest, hp⟩

theorem interrupt : c.interrupt = c'.interrupt := by
  obtain ⟨p, rfl, -⟩ := h.exists_status
  rfl

theorem stall : c.stall = c'.stall := by
  obtain ⟨p, rfl, -⟩ := h.exists_status
  rfl

theorem cycles : c.cycles = c'.cycles := by
  obtain ⟨p, rfl, -⟩ := h.exists_status
  rfl

/-- An operand is found by the same registers. -/
theorem index : c.pc = c'.pc ∧ c.x = c'.x ∧ c.y = c'.y := by
  obtain ⟨p, rfl, -⟩ := h.exists_status
  exact ⟨rfl, rfl, rfl⟩

theorem moved (a x y sp : UInt8) (pc : UInt16) (cycles stall : Nat) (interrupt : Interrupt) :
    ({ c with a, x, y, sp, pc, cycles, stall, interrupt } : Cpu).SameButDecimal
      { c' with a, x, y, sp, pc, cycles, stall, interrupt } :=
  congrArg (fun b : Cpu => ({ b with a, x, y, sp, pc, cycles, stall, interrupt } : Cpu)) h

theorem movedOn (i : Instruction) : (c.movedOn i).SameButDecimal (c'.movedOn i) := by
  obtain ⟨p, rfl, -⟩ := h.exists_status
  exact h.moved ..

theorem setFlag {mask : UInt8} (hmask : Status.decimal &&& mask = 0) (on : Bool) :
    (c.setFlag mask on).SameButDecimal (c'.setFlag mask on) := by
  show (c.setFlag mask on).binary = _
  rw [← c.setFlag_binary hmask, show c.binary = _ from h, c'.setFlag_binary hmask]

theorem setA (value : UInt8) : (c.setA value).SameButDecimal (c'.setA value) := by
  show (c.setA value).binary = _
  rw [← c.setA_binary, show c.binary = _ from h, c'.setA_binary]

/-- The copies of the status byte differ in the same bit. -/
theorem pushed :
    (c.p ||| Status.brk) &&& ~~~Status.decimal = (c'.p ||| Status.brk) &&& ~~~Status.decimal :=
  congrArg Cpu.p (h.setFlag (show Status.decimal &&& Status.brk = 0 by decide) true)

/-- What is pulled replaces the status byte. -/
theorem withPulledStatus {value value' : UInt8}
    (hvalue : value &&& ~~~Status.decimal = value' &&& ~~~Status.decimal) :
    (c.withPulledStatus value).SameButDecimal (c'.withPulledStatus value') := by
  obtain ⟨p, rfl, -⟩ := h.exists_status
  have hlive : ({ c with p := value } : Cpu).SameButDecimal { c with p := value' } :=
    congrArg (fun p => ({ c with p } : Cpu)) hvalue
  exact (hlive.setFlag (show Status.decimal &&& Status.brk = 0 by decide) false).setFlag
    (show Status.decimal &&& Status.unused = 0 by decide) true

theorem inHandler (pc : UInt16) : (c.inHandler pc).SameButDecimal (c'.inHandler pc) := by
  obtain ⟨p, rfl, -⟩ := h.exists_status
  exact (h.moved c.a c.x c.y (c.sp - 1 - 1 - 1) pc c.cycles c.stall c.interrupt).setFlag
    (show Status.decimal &&& Status.irqDisable = 0 by decide) true

end SameButDecimal

end Cpu

/-! ## Transcripts without the flag -/

/-- The access with the decimal bit of its byte cleared. -/
def Exchange.binary : Exchange → Exchange
  | read addr answer => .read addr (answer &&& ~~~Status.decimal)
  | write addr value => .write addr (value &&& ~~~Status.decimal)

/-- The byte that is answered, if there is one. -/
def Exchange.answer? : Exchange → Option UInt8
  | read _ answer => some answer
  | write _ _ => none

/-- The bytes that are answered, one after the other. -/
def answers (exchanges : List Exchange) : List UInt8 := exchanges.filterMap Exchange.answer?

theorem answers_append (l l' : List Exchange) : answers (l ++ l') = answers l ++ answers l' :=
  List.filterMap_append ..

/-- Two lists have the same elements in the places that both have. -/
def AgreeInPlace (l l' : List UInt8) : Prop :=
  ∀ (n : Nat) (x y : UInt8), l[n]? = some x → l'[n]? = some y → x = y

theorem agreeInPlace_cons {x y : UInt8} {l l' : List UInt8} :
    AgreeInPlace (x :: l) (y :: l') ↔ x = y ∧ AgreeInPlace l l' := by
  constructor
  · intro h
    exact ⟨h 0 x y rfl rfl, fun n => h (n + 1)⟩
  · rintro ⟨rfl, h⟩ n x' y' hx hy
    cases n with
    | zero => exact (Option.some.inj hx).symm.trans (Option.some.inj hy)
    | succ n => exact h n x' y' hx hy

theorem AgreeInPlace.of_eq {l l' : List UInt8} (h : l = l') : AgreeInPlace l l' := by
  subst h
  intro n x y hx hy
  exact Option.some.inj (hx.symm.trans hy)

theorem AgreeInPlace.of_append {l r r' : List UInt8} (h : AgreeInPlace (l ++ r) (l ++ r')) :
    AgreeInPlace r r' := by
  induction l with
  | nil => exact h
  | cons x l ih => exact ih (agreeInPlace_cons.mp h).2

/-- Where an effect moves the status byte to the stack or from it, counted back from the last access
of the instruction. -/
def Effect.statusBack? : Effect → Option Nat
  | .pushStatus | .pullStatus => some 0
  | .softwareInterrupt | .returnFromInterrupt => some 2
  | _ => none

/-- The accesses with the decimal bit cleared where an effect moves the status byte. -/
def Effect.clearDecimal (e : Effect) (exchanges : List Exchange) : List Exchange :=
  match e.statusBack? with
  | some back => exchanges.modify (exchanges.length - 1 - back) Exchange.binary
  | none => exchanges

/-- Entering a handler writes the same but for the copy of the status byte. -/
theorem Cpu.SameButDecimal.entryExchanges {c c' : Cpu} (h : c.SameButDecimal c') (vector : UInt16)
    (low high : UInt8) :
    (c.entryExchanges vector low high).modify 2 Exchange.binary =
      (c'.entryExchanges vector low high).modify 2 Exchange.binary := by
  have hpushed := h.pushed
  obtain ⟨p, rfl, -⟩ := h.exists_status
  exact congrArg (fun value => [Exchange.write (stackCell c.sp) (c.pc >>> 8).toUInt8,
    .write (stackCell (c.sp - 1)) c.pc.toUInt8, .write (stackCell (c.sp - 2)) value,
    .read vector low, .read (vector + 1) high]) hpushed

variable {i : Instruction} {c c' d d' : Cpu} {made made' : List Exchange}

/-- **An effect does the same**, if what it reads is the same. -/
theorem Effect.CarriesOut.same {e : Effect} (he : e.IgnoresDecimal) (hc : c.SameButDecimal c')
    (h : e.CarriesOut i c made d) (h' : e.CarriesOut i c' made' d')
    (hanswers : AgreeInPlace (answers (e.clearDecimal made)) (answers (e.clearDecimal made'))) :
    e.clearDecimal made = e.clearDecimal made' ∧ d.SameButDecimal d' := by
  have hbinary : c.binary = c'.binary := hc
  obtain ⟨p, rfl, -⟩ := id hc.exists_status
  cases h with
  | load f answer =>
      cases h' with
      | load _ answer' =>
          obtain rfl : answer = answer' := (agreeInPlace_cons.mp hanswers).1
          refine ⟨rfl, (he c answer).symm.trans ?_⟩
          rw [hbinary]
          exact he _ answer
  | store f =>
      cases h' with
      | store =>
          rw [← he c, hbinary, he]
          exact ⟨rfl, hc⟩
  | modify f answer hmode =>
      cases h' with
      | modify _ answer' =>
          obtain rfl : answer = answer' := (agreeInPlace_cons.mp hanswers).1
          obtain ⟨hbyte, hcpu⟩ := he c answer
          obtain ⟨hbyte', hcpu'⟩ := he { c with p } answer
          rw [hbinary] at hbyte hcpu
          rw [← hbyte, hbyte']
          exact ⟨rfl, hcpu.symm.trans hcpu'⟩
      | modifyA _ haccumulator => exact absurd haccumulator hmode
  | modifyA f hmode =>
      cases h' with
      | modify _ _ hmemory => exact absurd hmode hmemory
      | modifyA =>
          obtain ⟨hbyte, hcpu⟩ := he c c.a
          obtain ⟨hbyte', hcpu'⟩ := he { c with p } c.a
          rw [hbinary] at hbyte hcpu
          have hresult : (f c c.a).2.binary = (f { c with p } c.a).2.binary := hcpu.symm.trans hcpu'
          refine ⟨rfl, ?_⟩
          rw [← hbyte, hbyte']
          exact congrArg (fun b : Cpu => { b with a := (f { c with p } c.a).1 }) hresult
  | registers f =>
      cases h' with
      | registers =>
          refine ⟨rfl, (he c).symm.trans ?_⟩
          rw [hbinary]
          exact he _
  | taken taken htaken =>
      cases h' with
      | taken => exact ⟨rfl, hc.moved ..⟩
      | notTaken _ hnot =>
          rw [← he, ← hbinary, he, htaken] at hnot
          cases hnot
  | notTaken taken hnot =>
      cases h' with
      | taken _ htaken =>
          rw [← he, ← hbinary, he, hnot] at htaken
          cases htaken
      | notTaken => exact ⟨rfl, hc⟩
  | jump =>
      cases h' with
      | jump => exact ⟨rfl, hc.moved ..⟩
  | call =>
      cases h' with
      | call => exact ⟨rfl, hc.moved ..⟩
  | returnFromCall low high =>
      cases h' with
      | returnFromCall low' high' =>
          obtain ⟨rfl, hrest⟩ := agreeInPlace_cons.mp hanswers
          obtain ⟨rfl, -⟩ := agreeInPlace_cons.mp hrest
          exact ⟨rfl, hc.moved ..⟩
  | softwareInterrupt low high =>
      cases h' with
      | softwareInterrupt low' high' =>
          obtain ⟨rfl, hrest⟩ := agreeInPlace_cons.mp hanswers
          obtain ⟨rfl, -⟩ := agreeInPlace_cons.mp hrest
          exact ⟨hc.entryExchanges irqVector low high, hc.inHandler _⟩
  | returnFromInterrupt status low high =>
      cases h' with
      | returnFromInterrupt status' low' high' =>
          obtain ⟨hpulled, hrest⟩ := agreeInPlace_cons.mp hanswers
          obtain ⟨hlow, hlast⟩ := agreeInPlace_cons.mp hrest
          obtain rfl : high = high' := (agreeInPlace_cons.mp hlast).1
          obtain rfl : low = low' := hlow
          have hlist := congrArg (fun value => [Exchange.read (stackCell (c.sp + 1)) value,
            .read (stackCell (c.sp + 1 + 1)) low, .read (stackCell (c.sp + 1 + 1 + 1)) high])
            hpulled
          exact ⟨hlist, (hc.withPulledStatus hpulled).moved ..⟩
  | pushA =>
      cases h' with
      | pushA => exact ⟨rfl, hc.moved ..⟩
  | pushStatus =>
      cases h' with
      | pushStatus =>
          exact ⟨congrArg (fun value => [Exchange.write (stackCell c.sp) value]) hc.pushed,
            hc.moved ..⟩
  | pullA answer =>
      cases h' with
      | pullA answer' =>
          obtain rfl : answer = answer' := (agreeInPlace_cons.mp hanswers).1
          have hmoved : ({ c with sp := c.sp + 1 } : Cpu).SameButDecimal
            { c with p, sp := c.sp + 1 } := hc.moved ..
          exact ⟨rfl, hmoved.setA answer⟩
  | pullStatus answer =>
      cases h' with
      | pullStatus answer' =>
          have hpulled := (agreeInPlace_cons.mp hanswers).1
          have hmoved : ({ c with sp := c.sp + 1 } : Cpu).SameButDecimal
            { c with p, sp := c.sp + 1 } := hc.moved ..
          exact ⟨congrArg (fun value => [Exchange.read (stackCell (c.sp + 1)) value]) hpulled,
            hmoved.withPulledStatus hpulled⟩
  | idle =>
      cases h' with
      | idle => exact ⟨rfl, hc⟩

/-- What is set or pulled replaces the flag. -/
theorem Effect.CarriesOut.settled {m : Mnemonic} (hc : c.SameButDecimal c')
    (h : m.effect.CarriesOut i c made d) (h' : m.effect.CarriesOut i c' made' d')
    (hm : m = .cld ∨ m = .sed ∨
      (m = .plp ∨ m = .rti) ∧ AgreeInPlace (answers made) (answers made')) : d = d' := by
  have hbinary : c.binary = c'.binary := hc
  obtain rfl | rfl | ⟨rfl | rfl, hanswers⟩ := hm
  · cases h
    cases h'
    exact hbinary
  · cases h
    cases h'
    show c.setFlag Status.decimal true = c'.setFlag Status.decimal true
    rw [← c.setFlag_setFlag false true, ← c'.setFlag_setFlag false true]
    exact congrArg (·.setFlag Status.decimal true) hbinary
  · obtain ⟨p, rfl, -⟩ := hc.exists_status
    cases h with
    | pullStatus status =>
        cases h' with
        | pullStatus status' =>
            obtain rfl : status = status' := (agreeInPlace_cons.mp hanswers).1
            rfl
  · obtain ⟨p, rfl, -⟩ := hc.exists_status
    cases h with
    | returnFromInterrupt status low high =>
        cases h' with
        | returnFromInterrupt status' low' high' =>
            obtain ⟨hstatus, hrest⟩ := agreeInPlace_cons.mp hanswers
            obtain ⟨hlow, hlast⟩ := agreeInPlace_cons.mp hrest
            obtain rfl : high = high' := (agreeInPlace_cons.mp hlast).1
            obtain rfl : low = low' := hlow
            obtain rfl : status = status' := hstatus
            rfl

/-! ## What comes before an effect -/

/-- Entering a handler does the same, if the vector is the same. -/
theorem Served.same {entry entry' : List Exchange} (hc : c.SameButDecimal c')
    (h : Served c entry d) (h' : Served c' entry' d') {rest rest' : List UInt8}
    (hanswers : AgreeInPlace (answers entry ++ rest) (answers entry' ++ rest')) :
    entry.modify 2 Exchange.binary = entry'.modify 2 Exchange.binary ∧
      answers entry = answers entry' ∧ d.SameButDecimal d' ∧ AgreeInPlace rest rest' := by
  have hinterrupt := hc.interrupt
  cases h with
  | straight hnone =>
      cases h' with
      | straight => exact ⟨rfl, rfl, hc, hanswers⟩
      | handler _ _ hsome =>
          rw [← hinterrupt, hnone] at hsome
          cases hsome
  | handler low high hsome =>
      cases h' with
      | straight hnone =>
          rw [hinterrupt, hnone] at hsome
          cases hsome
      | handler low' high' hsome' =>
          rw [← hinterrupt, hsome] at hsome'
          cases hsome'
          obtain ⟨rfl, hhigh⟩ := agreeInPlace_cons.mp hanswers
          obtain ⟨rfl, hrest⟩ := agreeInPlace_cons.mp hhigh
          refine ⟨hc.entryExchanges _ low high, rfl, ?_, hrest⟩
          have hhandler := hc.inHandler (wordOf low high)
          obtain ⟨p, rfl, -⟩ := hc.exists_status
          exact hhandler.moved ..

/-- An operand is found the same way, if the bytes that tell of it are the same. -/
theorem OperandReads.same {pc addr addr' : UInt16} {x y : UInt8} {mode : Mode}
    {reads reads' : List Exchange} (h : OperandReads pc x y mode reads addr)
    (h' : OperandReads pc x y mode reads' addr') {rest rest' : List UInt8}
    (hanswers : AgreeInPlace (answers reads ++ rest) (answers reads' ++ rest')) :
    reads = reads' ∧ addr = addr' ∧ AgreeInPlace rest rest' := by
  cases h
  -- by the number of bytes that are read
  case implied | accumulator | immediate =>
    cases h'
    exact ⟨rfl, rfl, hanswers⟩
  case zeroPage | zeroPageX | zeroPageY | relative =>
    cases h'
    obtain ⟨rfl, hrest⟩ := agreeInPlace_cons.mp hanswers
    exact ⟨rfl, rfl, hrest⟩
  case absolute | absoluteX | absoluteY =>
    cases h'
    obtain ⟨rfl, hhigh⟩ := agreeInPlace_cons.mp hanswers
    obtain ⟨rfl, hrest⟩ := agreeInPlace_cons.mp hhigh
    exact ⟨rfl, rfl, hrest⟩
  case indexedIndirect | indirectIndexed =>
    cases h'
    obtain ⟨rfl, hlow⟩ := agreeInPlace_cons.mp hanswers
    obtain ⟨rfl, hhigh⟩ := agreeInPlace_cons.mp hlow
    obtain ⟨rfl, hrest⟩ := agreeInPlace_cons.mp hhigh
    exact ⟨rfl, rfl, hrest⟩
  case indirect =>
    cases h'
    obtain ⟨rfl, hhigh⟩ := agreeInPlace_cons.mp hanswers
    obtain ⟨rfl, htarget⟩ := agreeInPlace_cons.mp hhigh
    obtain ⟨rfl, htargetHigh⟩ := agreeInPlace_cons.mp htarget
    obtain ⟨rfl, hrest⟩ := agreeInPlace_cons.mp htargetHigh
    exact ⟨rfl, rfl, hrest⟩

/-! ## Accounts -/

/-- The entry into a handler moves the status byte by its third access. -/
theorem Served.modify_append {entry : List Exchange} (h : Served c entry d)
    (rest : List Exchange) :
    (if c.interrupt = .none then entry ++ rest else (entry ++ rest).modify 2 Exchange.binary) =
      entry.modify 2 Exchange.binary ++ rest := by
  cases h with
  | straight hnone => exact if_pos hnone
  | handler low high hsome =>
      have hwaits : c.interrupt ≠ .none := by
        intro hnone
        rw [hnone] at hsome
        cases hsome
      exact if_neg hwaits

/-- It reads no status byte. -/
theorem Served.answers_modify {entry : List Exchange} (h : Served c entry d) :
    answers (entry.modify 2 Exchange.binary) = answers entry := by
  cases h <;> rfl

theorem modify_append {α : Type} (f : α → α) (before l : List α) (n : Nat) :
    (before ++ l).modify (before.length + n) f = before ++ l.modify n f := by
  induction before with
  | nil => rw [List.length_nil, Nat.zero_add, List.nil_append, List.nil_append]
  | cons a before ih =>
      rw [List.cons_append, List.length_cons, Nat.add_right_comm, List.modify_succ_cons, ih,
        List.cons_append]

/-- The status byte is moved by the accesses of the effect. -/
theorem Effect.CarriesOut.clearDecimal_append {e : Effect} (h : e.CarriesOut i c made d)
    (before : List Exchange) : e.clearDecimal (before ++ made) = before ++ e.clearDecimal made := by
  unfold clearDecimal
  rw [List.length_append]
  cases h
  case pushStatus | pullStatus | returnFromInterrupt => exact modify_append _ before _ 0
  case softwareInterrupt => exact modify_append _ before _ 2
  all_goals rfl

variable {β : Type} [Bus β]

/-- The accesses of a step with the decimal bit cleared wherever the status byte is moved to the
stack or from it: by the entry into a handler, whose third access it is, and by the instruction. -/
def Wired.exchangesButDecimal (s : Wired β) : List Exchange :=
  s.next.opcode.mnemonic.effect.clearDecimal
    (if s.cpu.interrupt = .none then s.exchanges else s.exchanges.modify 2 Exchange.binary)

theorem Wired.exchangesButDecimal_of_interrupt {s : Wired β} {m : Mnemonic}
    (h : s.cpu.interrupt ≠ .none) (hm : s.next.opcode.mnemonic = m) :
    s.exchangesButDecimal = m.effect.clearDecimal (s.exchanges.modify 2 Exchange.binary) := by
  rw [exchangesButDecimal, if_neg h, hm]

/-- Two steps that do the same up to the decimal flag, part by part. -/
structure Wired.SameAccount (s t : Wired β) (entry reads entry' reads' : List Exchange) : Prop where
  next : s.next = t.next
  entry : answers entry = answers entry'
  reads : reads = reads'
  exchanges : s.exchangesButDecimal = t.exchangesButDecimal
  found : s.serveInterrupt.cpu.SameButDecimal t.serveInterrupt.cpu
  executed : s.executed.cpu.SameButDecimal t.executed.cpu

namespace Wired.Account

variable {s t : Wired β} {entry reads effect entry' reads' effect' : List Exchange}

theorem exchangesButDecimal (h : s.Account entry reads effect) :
    s.exchangesButDecimal = entry.modify 2 Exchange.binary ++
      .read s.serveInterrupt.cpu.pc s.next.byte ::
        (reads ++ s.next.opcode.mnemonic.effect.clearDecimal effect) := by
  rw [Wired.exchangesButDecimal, h.exchanges, h.served.modify_append, ← List.cons_append,
    ← List.append_assoc, h.carriesOut.clearDecimal_append, List.append_assoc, List.cons_append]

theorem answers_exchangesButDecimal (h : s.Account entry reads effect) :
    answers s.exchangesButDecimal = answers entry ++ s.next.byte ::
      (answers reads ++ answers (s.next.opcode.mnemonic.effect.clearDecimal effect)) := by
  rw [h.exchangesButDecimal, answers_append, h.served.answers_modify, ← answers_append reads]
  rfl

theorem answers_exchanges (h : s.Account entry reads effect) :
    answers s.exchanges =
      answers entry ++ s.next.byte :: (answers reads ++ answers effect) := by
  rw [h.exchanges, answers_append, ← answers_append reads]
  rfl

/-- **Two steps do the same**, if what they read is the same. -/
theorem same (hs : s.Account entry reads effect) (ht : t.Account entry' reads' effect')
    (hc : s.cpu.SameButDecimal t.cpu)
    (hanswers : AgreeInPlace (answers s.exchangesButDecimal) (answers t.exchangesButDecimal)) :
    SameAccount s t entry reads entry' reads' := by
  rw [hs.answers_exchangesButDecimal, ht.answers_exchangesButDecimal] at hanswers
  obtain ⟨hentry, hentryAnswers, hfound, hrest⟩ := hs.served.same hc ht.served hanswers
  obtain ⟨hbyte, hrest⟩ := agreeInPlace_cons.mp hrest
  have hopcode : s.next.opcode = t.next.opcode := congrArg Opcode.ofByte hbyte
  obtain ⟨hpc, hx, hy⟩ := hfound.index
  -- the operand
  have hoperand := hs.operand
  rw [hpc, hx, hy, hopcode] at hoperand
  obtain ⟨hreads, haddr, hrest⟩ := hoperand.same ht.operand hrest
  have hnext : s.next = t.next := by
    have hop : s.next.operand = t.next.operand := by
      rw [hs.found, ht.found, hx, hy, hopcode, haddr]
    have hbehind : s.next.next = t.next.next := by
      rw [next_next, next_next, hpc, hopcode]
    show (⟨s.next.byte, s.next.operand, s.next.next⟩ : Instruction) =
      ⟨t.next.byte, t.next.operand, t.next.next⟩
    rw [hbyte, hop, hbehind]
  -- the effect
  have hcarries := hs.carriesOut
  rw [hnext] at hcarries hrest
  obtain ⟨heffect, hexecuted⟩ := hcarries.same (Mnemonic.ignoresDecimal _)
    (hfound.movedOn t.next) ht.carriesOut hrest
  refine ⟨hnext, hentryAnswers, hreads, ?_, hfound, hexecuted⟩
  rw [hs.exchangesButDecimal, ht.exchangesButDecimal, hentry, hpc, hreads, hnext, heffect]

end Wired.Account

/-! ## On the same bus -/

/-- The effects that push the status byte. -/
def Effect.pushesStatus : Effect → Bool
  | .pushStatus | .softwareInterrupt => true
  | _ => false

/-- Any other effect leaves the same bus, whatever the flag. -/
theorem Effect.bus_run_same {e : Effect} (he : e.IgnoresDecimal) (hpush : e.pushesStatus = false)
    {s t : Wired β} (hc : s.cpu.SameButDecimal t.cpu) (hbus : s.bus = t.bus) (i : Instruction) :
    (e.run i s).bus = (e.run i t).bus := by
  obtain ⟨c, b⟩ := s
  obtain ⟨c', b'⟩ := t
  have hbinary : c.binary = c'.binary := hc
  obtain rfl : b = b' := hbus
  obtain ⟨p, rfl, -⟩ := hc.exists_status
  cases e with
  | store f =>
      show Bus.write b i.operand.address (f c) = _
      rw [← he c, hbinary, he]
      rfl
  | modify f =>
      simp only [Effect.run]
      split
      · rfl
      · have hbyte := (he c (Bus.read b i.operand.address).1).1
        rw [hbinary, (he _ _).1] at hbyte
        exact congrArg (Bus.write (Bus.read b i.operand.address).2 i.operand.address) hbyte.symm
  | branch taken =>
      simp only [Effect.run]
      split <;> split <;> rfl
  | pushStatus | softwareInterrupt => cases hpush
  | load | registers | jump | call | returnFromCall | returnFromInterrupt | pushA | pullA
  | pullStatus | idle => rfl

namespace Wired

variable {s t : Wired β}

theorem readied_same (hc : s.cpu.SameButDecimal t.cpu) (hbus : s.bus = t.bus)
    (hnone : s.cpu.interrupt = .none) :
    s.next = t.next ∧ s.readied.cpu.SameButDecimal t.readied.cpu ∧
      s.readied.bus = t.readied.bus := by
  have hs := serveInterrupt_of_none hnone
  have ht := serveInterrupt_of_none (hc.interrupt.symm.trans hnone)
  unfold readied next
  rw [hs, ht]
  obtain ⟨c, b⟩ := s
  obtain ⟨c', b'⟩ := t
  obtain rfl : b = b' := hbus
  have hmoved := hc.movedOn (fetch ⟨c, b⟩).1
  obtain ⟨p, rfl, -⟩ := hc.exists_status
  exact ⟨rfl, hmoved, rfl⟩

/-- A step that enters no handler and pushes no status byte makes the same accesses, and leaves the
bus the same. -/
theorem executed_same (hc : s.cpu.SameButDecimal t.cpu) (hbus : s.bus = t.bus)
    (hnone : s.cpu.interrupt = .none)
    (hpush : s.next.opcode.mnemonic.effect.pushesStatus = false) :
    s.executed.bus = t.executed.bus := by
  obtain ⟨hnext, hcpu, hready⟩ := readied_same hc hbus hnone
  unfold executed
  rw [← hnext]
  exact Effect.bus_run_same (Mnemonic.ignoresDecimal _) hpush hcpu hready s.next

end Wired

/-! ## What is read before the status byte is pushed -/

theorem Mnemonic.pushesStatus_effect {m : Mnemonic} (h : m.effect.pushesStatus = true) :
    m = .php ∨ m = .brk := by
  cases m <;> first | exact .inl rfl | exact .inr rfl | cases h

namespace Wired

omit [Bus β] in
theorem transcribed_bus {s t : Wired β} (h : s.bus = t.bus) :
    s.transcribed.bus = t.transcribed.bus :=
  congrArg (fun b => (⟨b, []⟩ : Transcribed β)) h

/-- Pushing the status byte reads nothing. -/
theorem answers_of_php {s : Wired β} (hstall : s.cpu.stall = 0) (hnone : s.cpu.interrupt = .none)
    (hphp : s.next.opcode.mnemonic = .php) :
    answers s.exchangesButDecimal = answers s.transcribed.readied.bus.exchanges := by
  obtain ⟨made, hmade, hcarries⟩ :=
    s.transcribed.readied.carriesOut_run s.next.opcode.mnemonic.effect s.transcribed.next
  have hlist : s.exchanges = s.transcribed.readied.bus.exchanges ++ made := by
    rw [exchanges_of_not_stalled hstall, ← hmade, ← next_transcribed]
    rfl
  rw [exchangesButDecimal, if_pos hnone, hlist, hcarries.clearDecimal_append, answers_append]
  rw [hphp] at hcarries ⊢
  cases hcarries
  exact List.append_nil _

variable {s t : Wired β} (hc : s.cpu.SameButDecimal t.cpu) (hbus : s.bus = t.bus)
  (hstall : s.cpu.stall = 0) (hnone : s.cpu.interrupt = .none)
include hc hbus hstall hnone

theorem exchanges_same_of_none (hpush : s.next.opcode.mnemonic.effect.pushesStatus = false) :
    s.exchanges = t.exchanges := by
  have htranscribed := transcribed_bus hbus
  rw [exchanges_of_not_stalled hstall, exchanges_of_not_stalled (hc.stall.symm.trans hstall)]
  exact congrArg Transcribed.exchanges
    (executed_same (s := s.transcribed) (t := t.transcribed) hc htranscribed hnone
      (by rwa [next_transcribed]))

/-- A step that enters no handler reads the same, whatever it pushes. -/
theorem answers_same_of_none (hbrk : s.next.opcode.mnemonic ≠ .brk) :
    answers s.exchangesButDecimal = answers t.exchangesButDecimal := by
  have hnone' : t.cpu.interrupt = .none := hc.interrupt.symm.trans hnone
  have hnext : s.next = t.next := (readied_same hc hbus hnone).1
  cases hpush : s.next.opcode.mnemonic.effect.pushesStatus with
  | false =>
      rw [exchangesButDecimal, exchangesButDecimal, if_pos hnone, if_pos hnone', ← hnext,
        exchanges_same_of_none hc hbus hstall hnone hpush]
  | true =>
      have hphp : s.next.opcode.mnemonic = .php :=
        (Mnemonic.pushesStatus_effect hpush).resolve_right hbrk
      have htranscribed := transcribed_bus hbus
      rw [answers_of_php hstall hnone hphp,
        answers_of_php (hc.stall.symm.trans hstall) hnone' (hnext ▸ hphp),
        (readied_same (s := s.transcribed) (t := t.transcribed) hc htranscribed hnone).2.2]

end Wired

/-! ## Steps -/

namespace Wired

/-- The step goes through a vector: it enters the handler of an interrupt, or asks for one. -/
def TakesVector (s : Wired β) : Prop :=
  s.cpu.stall = 0 ∧ (s.cpu.interrupt ≠ .none ∨ s.next.opcode.mnemonic = .brk)

/-- The step pushes the status byte. -/
def PushesStatus (s : Wired β) : Prop :=
  s.TakesVector ∨ s.cpu.stall = 0 ∧ s.next.opcode.mnemonic = .php

/-- The bus does not make up for the difference between two status bytes that have been pushed: what
is read behind them is the same, and so is whether a transfer has been started. -/
structure AnsweredAlike (s t : Wired β) : Prop where
  reads : s.TakesVector →
    AgreeInPlace (answers s.exchangesButDecimal) (answers t.exchangesButDecimal)
  transfers : s.PushesStatus → s.transfers = t.transfers

theorem straight_of_not_takesVector {s : Wired β} (hstall : s.cpu.stall = 0)
    (h : ¬ s.TakesVector) : s.cpu.interrupt = .none ∧ s.next.opcode.mnemonic ≠ .brk := by
  unfold TakesVector at h
  simpa [hstall] using h

theorem quiet_of_not_pushesStatus {s : Wired β} (hstall : s.cpu.stall = 0)
    (h : ¬ s.PushesStatus) :
    s.cpu.interrupt = .none ∧ s.next.opcode.mnemonic.effect.pushesStatus = false := by
  obtain ⟨hvector, hphp⟩ := not_or.mp h
  obtain ⟨hnone, hbrk⟩ := straight_of_not_takesVector hstall hvector
  refine ⟨hnone, ?_⟩
  cases hpush : s.next.opcode.mnemonic.effect.pushesStatus with
  | false => rfl
  | true =>
      obtain hm | hm := Mnemonic.pushesStatus_effect hpush
      · exact absurd ⟨hstall, hm⟩ hphp
      · exact absurd hm hbrk

/-- Two steps that the decimal flag makes no difference to. -/
structure SameStep (s t : Wired β) : Prop where
  cycles : s.step.1 = t.step.1
  /-- All registers are the same, and the status byte except for the flag. -/
  cpu : s.step.2.cpu.SameButDecimal t.step.2.cpu
  /-- The accesses are the same, except for the flag in the status byte. -/
  exchanges : s.exchangesButDecimal = t.exchangesButDecimal
  /-- Where no status byte is pushed they are just the same. -/
  unpushed : ¬ s.PushesStatus → s.exchanges = t.exchanges
  /-- After the families that set or clear the flag it is the same as well. -/
  set : s.cpu.stall = 0 → s.next.opcode.mnemonic = .cld ∨ s.next.opcode.mnemonic = .sed →
    s.step.2.cpu = t.step.2.cpu
  /-- So it is after those that pull it, unless they pull what has been pushed in the same step. -/
  pulled : s.cpu.stall = 0 → s.next.opcode.mnemonic = .plp ∨ s.next.opcode.mnemonic = .rti →
    s.cpu.interrupt = .none ∨ AgreeInPlace (answers s.exchanges) (answers t.exchanges) →
    s.step.2.cpu = t.step.2.cpu

variable {s t : Wired β}

/-- A CPU that waits looks at nothing. -/
theorem SameStep.of_stalled (hc : s.cpu.SameButDecimal t.cpu) (hstall : s.cpu.stall ≠ 0) :
    SameStep s t := by
  have hstall' : t.cpu.stall ≠ 0 := hc.stall ▸ hstall
  have hnone : ∀ {u : Wired β}, u.cpu.stall ≠ 0 → u.exchangesButDecimal = [] := by
    intro u hu
    rw [exchangesButDecimal, exchanges_of_stalled hu]
    have hempty : ∀ e : Effect, e.clearDecimal [] = [] := by
      intro e
      cases e <;> rfl
    split <;> exact hempty _
  have hs := step_of_stalled hstall
  have ht := step_of_stalled hstall'
  constructor
  case cycles => rw [hs, ht]
  case cpu =>
    rw [hs, ht]
    obtain ⟨p, hp, -⟩ := hc.exists_status
    show ({ s.cpu with stall := s.cpu.stall - 1 } : Cpu).SameButDecimal
      { t.cpu with stall := t.cpu.stall - 1 }
    rw [hp] at hc ⊢
    exact hc.moved ..
  case exchanges => rw [hnone hstall, hnone hstall']
  case unpushed =>
    exact fun _ => (exchanges_of_stalled hstall).trans (exchanges_of_stalled hstall').symm
  case set => exact fun h => absurd h hstall
  case pulled => exact fun h => absurd h hstall

/-- A CPU that runs an instruction. -/
theorem SameStep.of_not_stalled (hc : s.cpu.SameButDecimal t.cpu) (hbus : s.bus = t.bus)
    (halike : AnsweredAlike s t) (hstall : s.cpu.stall = 0) : SameStep s t := by
  have hstall' : t.cpu.stall = 0 := hc.stall.symm.trans hstall
  have hanswers :
      AgreeInPlace (answers s.exchangesButDecimal) (answers t.exchangesButDecimal) := by
    by_cases hvector : s.TakesVector
    · exact halike.reads hvector
    · obtain ⟨hnone, hbrk⟩ := straight_of_not_takesVector hstall hvector
      exact .of_eq (answers_same_of_none hc hbus hstall hnone hbrk)
  have htransfers : s.transfers = t.transfers := by
    by_cases hpush : s.PushesStatus
    · exact halike.transfers hpush
    · obtain ⟨hnone, hquiet⟩ := quiet_of_not_pushesStatus hstall hpush
      unfold transfers
      rw [executed_same hc hbus hnone hquiet]
  obtain ⟨entry, reads, effect, hs⟩ := exists_account hstall
  obtain ⟨entry', reads', effect', ht⟩ := exists_account hstall'
  have hsame := hs.same ht hc hanswers
  have hleft := cpu_step_of_not_stalled hstall
  have hleft' := cpu_step_of_not_stalled hstall'
  have hcpu : s.step.2.cpu.SameButDecimal t.step.2.cpu := by
    have hexecuted := hsame.executed
    rw [hleft, hleft', htransfers]
    obtain ⟨p, hp, -⟩ := hexecuted.exists_status
    rw [hp] at hexecuted ⊢
    exact hexecuted.moved ..
  have hsettled : ∀ {m : Mnemonic}, s.next.opcode.mnemonic = m →
      (m = .cld ∨ m = .sed ∨ (m = .plp ∨ m = .rti) ∧
        AgreeInPlace (answers effect) (answers effect')) → s.step.2.cpu = t.step.2.cpu := by
    intro m hmnemonic hm
    have hcarries := hs.carriesOut
    have hcarries' := ht.carriesOut
    rw [← hsame.next, hmnemonic] at hcarries'
    rw [hmnemonic] at hcarries
    have hexecuted := hcarries.settled (hsame.found.movedOn s.next) hcarries' hm
    rw [hleft, hleft', htransfers, hexecuted]
  constructor
  case cycles =>
    rw [fst_step_of_not_stalled hstall, fst_step_of_not_stalled hstall', hcpu.cycles, hc.cycles]
  case cpu => exact hcpu
  case exchanges => exact hsame.exchanges
  case unpushed =>
    intro hpush
    obtain ⟨hnone, hquiet⟩ := quiet_of_not_pushesStatus hstall hpush
    exact exchanges_same_of_none hc hbus hstall hnone hquiet
  case set =>
    intro _ hm
    exact hsettled rfl (hm.imp id .inl)
  case pulled =>
    intro _ hm hstraight
    have hall : AgreeInPlace (answers s.exchanges) (answers t.exchanges) := by
      rcases hstraight with hnone | hall
      · have hquiet : s.next.opcode.mnemonic.effect.pushesStatus = false := by
          rcases hm with hm | hm <;> rw [hm] <;> rfl
        exact .of_eq (congrArg answers (exchanges_same_of_none hc hbus hstall hnone hquiet))
      · exact hall
    -- the answers before the effect are the same, so those of the effect are
    rw [hs.answers_exchanges, ht.answers_exchanges, hsame.entry, hsame.next, hsame.reads] at hall
    have heffect := (agreeInPlace_cons.mp hall.of_append).2.of_append
    exact hsettled rfl (.inr (.inr ⟨hm, heffect⟩))

end Wired

/-- **The decimal flag makes no difference** to a step, on any bus that does not make one of the
copies it has been written. -/
theorem step_sameButDecimal {b : β} {c c' : Cpu} (hc : c.SameButDecimal c')
    (halike : Wired.AnsweredAlike ⟨c, b⟩ ⟨c', b⟩) : Wired.SameStep ⟨c, b⟩ ⟨c', b⟩ := by
  by_cases hstall : c.stall = 0
  case neg => exact .of_stalled hc hstall
  case pos => exact .of_not_stalled hc rfl halike hstall

/-! ## In plain memory

An interrupt waits, and memory holds one byte everywhere, which is the first opcode of the handler.
-/

namespace Flat

/-- Memory that holds the same byte everywhere, with the first program counter and a status byte
pushed. -/
def saved (fill status : UInt8) : Flat :=
  let pc : UInt16 := 0
  Bus.write (Bus.write (Bus.write (filled fill) (stackCell 0xFD) (pc >>> 8).toUInt8)
    (stackCell (0xFD - 1)) pc.toUInt8) (stackCell (0xFD - 1 - 1)) status

/-- The stack lies below. -/
theorem get_saved (fill status : UInt8) {addr : UInt16} (h : 0x01FF < addr) :
    (saved fill status).get addr = fill := by
  have hcell : ∀ sp, stackCell sp ≠ addr := by
    rintro sp rfl
    have hnat := UInt16.lt_iff_toNat_lt.mp h
    rw [Wired.toNat_stackCell] at hnat
    have hsp := sp.toNat_lt
    have hend : (0x01FF : UInt16).toNat = 0x01FF := rfl
    omega
  rw [saved, get_write, if_neg (hcell _), get_write, if_neg (hcell _), get_write,
    if_neg (hcell _), get_filled]

end Flat

/-- A CPU that an interrupt waits for, in memory that holds the same byte everywhere. -/
def interruptedIn (fill p : UInt8) : Wired Flat := ⟨{ p, interrupt := .nmi }, Flat.filled fill⟩

/-- Its accesses on the way into the handler, with the bytes found at the vector. -/
def enteringExchanges (p low high : UInt8) : List Exchange :=
  let pc : UInt16 := 0
  [.write (stackCell 0xFD) (pc >>> 8).toUInt8, .write (stackCell (0xFD - 1)) pc.toUInt8,
    .write (stackCell (0xFD - 1 - 1)) (p ||| Status.brk), .read nmiVector low,
    .read (nmiVector + 1) high]

/-- The state in the handler, after a few accesses more. -/
def handlerIn (fill p : UInt8) (more : List Exchange) : Wired (Transcribed Flat) :=
  ⟨{ p := p ||| Status.irqDisable, sp := 0xFD - 1 - 1 - 1, cycles := interruptCycles,
     pc := wordOf fill fill },
    ⟨Flat.saved fill (p ||| Status.brk), enteringExchanges p fill fill ++ more⟩⟩

theorem interruptedIn_sameButDecimal (fill : UInt8) {p p' : UInt8}
    (h : p &&& ~~~Status.decimal = p' &&& ~~~Status.decimal) :
    (interruptedIn fill p).cpu.SameButDecimal (interruptedIn fill p').cpu :=
  congrArg (fun p : UInt8 => ({ p, interrupt := .nmi } : Cpu)) h

section

variable (fill p : UInt8)

theorem serveInterrupt_interruptedIn :
    (interruptedIn fill p).transcribed.serveInterrupt = handlerIn fill p [] := by
  have hlow : (Flat.saved fill (p ||| Status.brk)).get nmiVector = fill :=
    Flat.get_saved fill _ (by decide)
  have hhigh : (Flat.saved fill (p ||| Status.brk)).get (nmiVector + 1) = fill :=
    Flat.get_saved fill _ (by decide)
  have hserve : (interruptedIn fill p).transcribed.serveInterrupt =
      let m := Flat.saved fill (p ||| Status.brk)
      ⟨{ p := p ||| Status.irqDisable, sp := 0xFD - 1 - 1 - 1, cycles := interruptCycles,
         pc := wordOf (m.get nmiVector) (m.get (nmiVector + 1)) },
        ⟨m, enteringExchanges p (m.get nmiVector) (m.get (nmiVector + 1))⟩⟩ := rfl
  dsimp only at hserve
  rw [hlow, hhigh] at hserve
  exact hserve

theorem fetch_interruptedIn {m : Mnemonic} (h : Opcode.ofByte fill = ⟨m, .implied⟩)
    (hout : 0x01FF < wordOf fill fill) :
    (interruptedIn fill p).transcribed.serveInterrupt.fetch =
      (⟨fill, .direct 0, wordOf fill fill + UInt16.ofNat (Opcode.ofByte fill).size⟩,
        handlerIn fill p [.read (wordOf fill fill) fill]) := by
  have hread : (handlerIn fill p []).read (wordOf fill fill) =
      (fill, handlerIn fill p [.read (wordOf fill fill) fill]) := by
    have hbyte := Flat.get_saved fill (p ||| Status.brk) hout
    have hboth : (handlerIn fill p []).read (wordOf fill fill) =
        let byte := (Flat.saved fill (p ||| Status.brk)).get (wordOf fill fill)
        (byte, handlerIn fill p [.read (wordOf fill fill) byte]) := rfl
    dsimp only at hboth
    rw [hbyte] at hboth
    exact hboth
  rw [serveInterrupt_interruptedIn]
  unfold Wired.fetch
  rw [show (handlerIn fill p []).cpu.pc = wordOf fill fill from rfl, hread]
  simp only [h]
  rfl

end

/-- A handler that begins with an instruction on registers reads nothing of the stack, and starts no
transfer. -/
theorem executed_interruptedIn {fill : UInt8} {m : Mnemonic} {f : Cpu → Cpu}
    (h : Opcode.ofByte fill = ⟨m, .implied⟩) (heffect : m.effect = .registers f)
    (hout : 0x01FF < wordOf fill fill) (p : UInt8) :
    (interruptedIn fill p).next.opcode.mnemonic = m ∧
      (interruptedIn fill p).exchanges =
        enteringExchanges p fill fill ++ [.read (wordOf fill fill) fill] ∧
      (interruptedIn fill p).transfers = false := by
  have hfetch := fetch_interruptedIn fill p h hout
  have hnext : (interruptedIn fill p).next.opcode = ⟨m, .implied⟩ := by
    rw [← Wired.next_transcribed, Wired.next, hfetch]
    exact h
  have hbus : (interruptedIn fill p).transcribed.executed.bus =
      (handlerIn fill p [.read (wordOf fill fill) fill]).bus := by
    unfold Wired.executed
    rw [Wired.next_transcribed, hnext, heffect]
    unfold Wired.readied Wired.next
    rw [hfetch]
    rfl
  refine ⟨congrArg Opcode.mnemonic hnext, ?_, ?_⟩
  · rw [Wired.exchanges_of_not_stalled rfl]
    show (interruptedIn fill p).transcribed.executed.bus.exchanges = _
    rw [hbus]
    rfl
  · rw [← Wired.transfers_transcribed, Wired.transfers, hbus]
    rfl

/-- A handler that sets the flag first leaves the same CPU, though the copies of the status byte on
the stack are two. -/
theorem step_sameButDecimal_interruptedIn :
    let s := interruptedIn 0xF8 0x24
    let t := interruptedIn 0xF8 0x2C
    s.cpu.SameButDecimal t.cpu ∧ s.TakesVector ∧ s.AnsweredAlike t ∧ s.SameStep t ∧
      s.exchanges ≠ t.exchanges ∧ s.step.2.cpu = t.step.2.cpu := by
  intro s t
  have hsed : Opcode.ofByte 0xF8 = ⟨.sed, .implied⟩ := by decide
  obtain ⟨hnext, hexchanges, htransfers⟩ := executed_interruptedIn hsed rfl (by decide) 0x24
  obtain ⟨hnext', hexchanges', htransfers'⟩ := executed_interruptedIn hsed rfl (by decide) 0x2C
  have hcpu : s.cpu.SameButDecimal t.cpu := interruptedIn_sameButDecimal _ (by decide)
  have hvector : s.TakesVector := ⟨rfl, .inl Interrupt.noConfusion⟩
  have halike : s.AnsweredAlike t := by
    refine ⟨fun _ => .of_eq ?_, fun _ => htransfers.trans htransfers'.symm⟩
    rw [Wired.exchangesButDecimal_of_interrupt Interrupt.noConfusion hnext,
      Wired.exchangesButDecimal_of_interrupt Interrupt.noConfusion hnext', hexchanges, hexchanges']
    rfl
  have hstep : s.SameStep t := step_sameButDecimal hcpu halike
  refine ⟨hcpu, hvector, halike, hstep, ?_, hstep.set rfl (.inr hnext)⟩
  rw [hexchanges, hexchanges']
  decide

/-- **The flag can be seen in A.** A handler that pulls a byte into A first pulls the copy of the
status byte that has just been pushed. -/
theorem a_step_interruptedIn_ne :
    (interruptedIn 0x68 0x24).cpu.SameButDecimal (interruptedIn 0x68 0x2C).cpu ∧
      (interruptedIn 0x68 0x24).bus = (interruptedIn 0x68 0x2C).bus ∧
      (interruptedIn 0x68 0x24).step.2.cpu.a ≠ (interruptedIn 0x68 0x2C).step.2.cpu.a := by
  have hpla : Opcode.ofByte 0x68 = ⟨.pla, .implied⟩ := by decide
  have ha : ∀ p : UInt8, (interruptedIn 0x68 p).step.2.cpu.a = p ||| Status.brk := by
    intro p
    have hfetch := fetch_interruptedIn 0x68 p hpla (by decide)
    have hnext : (interruptedIn 0x68 p).transcribed.next.opcode = ⟨.pla, .implied⟩ := by
      rw [Wired.next, hfetch]
      exact hpla
    have hpulled : (Flat.saved 0x68 (p ||| Status.brk)).get
        (stackCell (0xFD - 1 - 1 - 1 + 1)) = p ||| Status.brk := by
      rw [Flat.saved, Flat.get_write, if_pos (by decide)]
    rw [← Wired.cpu_step_transcribed, Wired.cpu_step_of_not_stalled rfl]
    unfold Wired.executed
    rw [hnext]
    unfold Wired.readied Wired.next
    rw [hfetch]
    exact hpulled
  rw [ha, ha]
  exact ⟨interruptedIn_sameButDecimal _ (by decide), rfl, by decide⟩

end Nes
