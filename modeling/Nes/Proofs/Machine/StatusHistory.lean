import Nes.Proofs.Machine.History
import Nes.Proofs.Machine.OneBank
import Nes.Proofs.Ppu.StatusByte

/-!
# The status as a law on histories

What the CPU sees in the status register, said without the register. The flag of the vertical blank
is set from the dot that starts it up to the dot that ends it, unless the status has been read in
between, by whatever instruction, copy or host. The low bits of every answer are those of the byte
that was last written to a register. A page that is copied into sprite memory counts as such a byte
when it is stored, after all reads of the copy.
-/

set_option autoImplicit false

namespace Nes

/-- The status lies at an address. -/
def CpuMemory.isStatus (addr : UInt16) : Bool := isRegister addr && addr % 8 == 2

theorem CpuMemory.isRegister_of_isStatus {addr : UInt16} (h : isStatus addr = true) :
    isRegister addr = true := by
  rw [isStatus, Bool.and_eq_true] at h
  exact h.1

theorem CpuMemory.at?_of_isStatus {addr : UInt16} (h : isStatus addr = true) :
    Register.at? (registerAddress addr) = some .status := by
  rw [isStatus, Bool.and_eq_true, beq_iff_eq] at h
  exact at?_eq_status_iff.mpr h.2

variable {μ : Type}

open CpuMemory (isRegister isStatus registerAddress)

namespace Happening

/-! ## What the law speaks of -/

/-- The status is read, by the CPU or by a host. -/
def seesStatus : Happening μ → Bool
  | .read _ addr _ => isStatus addr
  | _ => false

/-- The byte that is left in the latch, if one is. -/
def latched? : Happening μ → Option UInt8
  | .write _ addr value => if isRegister addr then some value else none
  | .stored page _ => some page
  | _ => none

/-- The byte that is written to a register or to the address that starts copies, if one is. -/
def written? : Happening μ → Option UInt8
  | .write _ addr value => if isRegister addr || addr == oamDmaAddress then some value else none
  | _ => none

/-- The last byte that is picked from a history, 0 if there is none. -/
def lastByte (pick : Happening μ → Option UInt8) (h : List (Happening μ)) : UInt8 :=
  (h.filterMap pick).getLast?.getD 0

variable [Board μ]

/-- The state of the picture unit before a happening of a history. -/
def stateAt (h : List (Happening μ)) (first : Ppu) (i : Nat) : Ppu := replay (h.take i) first

/-- A dot moves the beam to dot 1 of line 241 in a frame. -/
structure Reaches (h : List (Happening μ)) (first : Ppu) (frame s : Nat) : Prop where
  dot : ∃ board, h[s]? = some (.dot board)
  frame_eq : (stateAt h first (s + 1)).beam.frame = frame
  scanline_eq : (stateAt h first (s + 1)).beam.scanline = 241
  dot_eq : (stateAt h first (s + 1)).beam.dot = 1

omit [Board μ] in
/-- The status is not read behind a happening and before another. -/
def Unseen (h : List (Happening μ)) (s i : Nat) : Prop :=
  ∀ j e, s < j → j < i → h[j]? = some e → e.seesStatus = false

/-- **The law of the status**, with the bytes in the latch picked from the history. -/
structure StatusLaw (pick : Happening μ → Option UInt8) (h : List (Happening μ)) (first : Ppu) :
    Prop where
  outside (i : Nat) : i ≤ h.length → ¬ (stateAt h first i).beam.InVblank →
    (stateAt h first i).inVblank = false
  inside (i : Nat) : i ≤ h.length → (stateAt h first i).beam.InVblank →
    ∃ s < i, Reaches h first (stateAt h first i).beam.frame s ∧
      ((stateAt h first i).inVblank = true ↔ Unseen h s i)
  answer (i : Nat) (board : μ) (addr : UInt16) (byte : UInt8) :
    h[i]? = some (.read board addr byte) → isStatus addr = true →
      byte.toNat = 128 * (stateAt h first i).inVblank.toNat +
        64 * (stateAt h first i).spriteZeroHit.toNat +
        32 * (stateAt h first i).spriteOverflow.toNat + (lastByte pick (h.take i)).toNat % 32
  keeps (i : Nat) (board : μ) (addr : UInt16) (byte : UInt8) :
    h[i]? = some (.read board addr byte) → isStatus addr = true →
      (stateAt h first (i + 1)).spriteZeroHit = (stateAt h first i).spriteZeroHit ∧
        (stateAt h first (i + 1)).spriteOverflow = (stateAt h first i).spriteOverflow

/-! ## One happening -/

theorem stateAt_succ {h : List (Happening μ)} {i : Nat} {e : Happening μ} (he : h[i]? = some e)
    (first : Ppu) : stateAt h first (i + 1) = Ppu.run e.events (stateAt h first i) :=
  replay_take_succ he first

theorem beam_events (p : Ppu) (e : Happening μ) :
    (Ppu.run e.events p).beam =
      match e with
      | .dot _ => p.beam.advance p.rendering
      | _ => p.beam := by
  cases e with
  | dot board => exact p.beam_step board
  | read board addr answer =>
      simp only [events]
      split
      · exact p.beam_after (.read board (registerAddress addr))
      · rfl
  | write board addr value =>
      simp only [events]
      split
      · exact p.beam_after (.write board (registerAddress addr) value)
      · rfl
  | stored page bytes => exact p.beam_after (.storePage page bytes : Ppu.Event μ)

theorem inVblank_events (p : Ppu) (e : Happening μ) :
    (Ppu.run e.events p).inVblank =
      match e with
      | .dot _ =>
          if (p.beam.advance p.rendering).startsVblank then true
          else if (p.beam.advance p.rendering).endsVblank then false
          else p.inVblank
      | e => if e.seesStatus then false else p.inVblank := by
  cases e with
  | dot board => exact p.inVblank_after (.dot board)
  | read board addr answer =>
      simp only [events, seesStatus, isStatus]
      split
      · next hr =>
          refine (p.inVblank_after (.read board (registerAddress addr))).trans ?_
          simp only [CpuMemory.at?_eq_status_iff, hr, Bool.true_and, beq_iff_eq]
      · next hr => simp only [hr, Bool.false_and, Bool.false_eq_true, if_false, Ppu.run_nil]
  | write board addr value =>
      simp only [events, seesStatus]
      split
      · exact p.inVblank_after (.write board (registerAddress addr) value)
      · rfl
  | stored page bytes => exact p.inVblank_after (.storePage page bytes : Ppu.Event μ)

/-- All that can happen to the flag and to the window: the vertical blank starts, it ends, or the
beam stays within the window or outside and the flag is cleared by a read of the status only. -/
theorem vblank_cases (p : Ppu) (e : Happening μ) :
    ((∃ board, e = .dot board) ∧ (Ppu.run e.events p).beam.startsVblank = true ∧
        (Ppu.run e.events p).inVblank = true) ∨
      ((Ppu.run e.events p).beam.endsVblank = true ∧ (Ppu.run e.events p).inVblank = false) ∨
      (((Ppu.run e.events p).beam.InVblank ↔ p.beam.InVblank) ∧
        (p.beam.InVblank → (Ppu.run e.events p).beam.frame = p.beam.frame) ∧
        (Ppu.run e.events p).inVblank = if e.seesStatus then false else p.inVblank) := by
  rw [beam_events, inVblank_events]
  cases e with
  | dot board =>
      dsimp only
      cases hstart : (p.beam.advance p.rendering).startsVblank with
      | true => exact .inl ⟨⟨board, rfl⟩, rfl, rfl⟩
      | false =>
          cases hend : (p.beam.advance p.rendering).endsVblank with
          | true => exact .inr (.inl ⟨rfl, rfl⟩)
          | false =>
              obtain ⟨hwindow, hframe⟩ := Beam.inVblank_advance hstart hend
              exact .inr (.inr ⟨hwindow, hframe, rfl⟩)
  | read | write | stored => exact .inr (.inr ⟨Iff.rfl, fun _ => rfl, rfl⟩)

theorem latch_events (p : Ppu) (e : Happening μ) :
    (Ppu.run e.events p).latch = e.latched?.getD p.latch := by
  cases e with
  | dot board => exact p.latch_after (.dot board)
  | read board addr answer =>
      simp only [events]
      split
      · exact p.latch_after (.read board (registerAddress addr))
      · rfl
  | write board addr value =>
      simp only [events, latched?]
      split
      · exact p.latch_after (.write board (registerAddress addr) value)
      · rfl
  | stored page bytes => exact p.latch_after (.storePage page bytes : Ppu.Event μ)

/-! ## Histories -/

/-- The latch holds the last byte that has been left in it. -/
theorem latch_replay (h : List (Happening μ)) (p : Ppu) :
    (replay h p).latch = (h.filterMap latched?).getLast?.getD p.latch := by
  induction h generalizing p with
  | nil => rfl
  | cons e h ih =>
      have hfirst : replay (e :: h) p = replay h (Ppu.run e.events p) := by
        rw [← List.singleton_append, replay_append, replay_singleton]
      rw [hfirst, ih, latch_events, List.filterMap_cons]
      cases e.latched? with
      | none => rfl
      | some byte => rw [List.getLast?_cons, Option.getD_some, Option.getD_some]

omit [Board μ] in
theorem unseen_succ_iff {h : List (Happening μ)} {s i : Nat} {e : Happening μ} (hs : s < i)
    (he : h[i]? = some e) : Unseen h s (i + 1) ↔ Unseen h s i ∧ e.seesStatus = false := by
  constructor
  · intro hu
    exact ⟨fun j e' hj hji => hu j e' hj (Nat.lt_succ_of_lt hji), hu i e hs (Nat.lt_succ_self i) he⟩
  · rintro ⟨hu, hlast⟩ j e' hj hji he'
    rcases Nat.lt_or_eq_of_le (Nat.le_of_lt_succ hji) with hlt | rfl
    · exact hu j e' hj hlt he'
    · rw [he, Option.some.injEq] at he'
      exact he' ▸ hlast

/-- The flag and the window, at any place of a history that starts outside the window with the flag
clear. -/
theorem vblank_stateAt {h : List (Happening μ)} {first : Ppu}
    (hbeam : ¬ first.beam.InVblank) (hflag : first.inVblank = false) {i : Nat}
    (hi : i ≤ h.length) :
    (¬ (stateAt h first i).beam.InVblank → (stateAt h first i).inVblank = false) ∧
      ((stateAt h first i).beam.InVblank →
        ∃ s < i, Reaches h first (stateAt h first i).beam.frame s ∧
          ((stateAt h first i).inVblank = true ↔ Unseen h s i)) := by
  induction i with
  | zero => exact ⟨fun _ => hflag, fun hin => absurd hin hbeam⟩
  | succ i ih =>
      obtain ⟨hout, hin⟩ := ih (Nat.le_of_succ_le hi)
      have he : h[i]? = some h[i] := List.getElem?_eq_getElem hi
      have hcases := vblank_cases (stateAt h first i) h[i]
      rw [← stateAt_succ he first] at hcases
      rcases hcases with ⟨⟨board, hdot⟩, hstart, hset⟩ | ⟨hend, hclear⟩ | ⟨hwindow, hframe, hkeep⟩
      · -- the dot that is looked for is this one, and nothing has come behind it
        obtain ⟨hline, hcolumn⟩ := (Beam.startsVblank_iff _).mp hstart
        refine ⟨fun hn => absurd (Beam.inVblank_of_startsVblank hstart) hn, fun _ => ?_⟩
        refine ⟨i, Nat.lt_succ_self i, ⟨⟨board, hdot ▸ he⟩, rfl, hline, hcolumn⟩, ?_⟩
        exact ⟨fun _ j _ hj hji => absurd hji (Nat.not_lt.mpr hj), fun _ => hset⟩
      · exact ⟨fun _ => hclear, fun h' => absurd h' (Beam.not_inVblank_of_endsVblank hend)⟩
      · rw [hwindow, hkeep]
        refine ⟨fun hn => ?_, fun h' => ?_⟩
        · rw [hout hn, ite_self]
        · -- the dot is the one from before, and this happening may be a read behind it
          obtain ⟨s, hs, hreach, hiff⟩ := hin h'
          refine ⟨s, Nat.lt_succ_of_lt hs, (hframe h').symm ▸ hreach, ?_⟩
          rw [unseen_succ_iff hs he, ← hiff]
          cases h[i].seesStatus with
          | true => simp
          | false => simp

/-- **The status follows its law** on every history that starts outside the window, with the flag
and the latch clear. -/
theorem statusLaw_of_leads {h : List (Happening μ)} {first last : Ppu} (hl : Leads first h last)
    (hbeam : ¬ first.beam.InVblank) (hflag : first.inVblank = false) (hlatch : first.latch = 0) :
    StatusLaw latched? h first where
  outside i hi := (vblank_stateAt hbeam hflag hi).1
  inside i hi := (vblank_stateAt hbeam hflag hi).2
  answer i board addr byte he hs := by
    have hbyte := hl.answers i _ he (CpuMemory.isRegister_of_isStatus hs)
    have hstatus := ((stateAt h first i).readRegister_status board (CpuMemory.at?_of_isStatus hs)).1
    have hlast : (stateAt h first i).latch = lastByte latched? (h.take i) := by
      rw [stateAt, latch_replay, hlatch]
      rfl
    rw [hbyte.trans hstatus, Ppu.toNat_status, hlast]
  keeps i board addr byte he hs := by
    have hregister := CpuMemory.isRegister_of_isStatus hs
    have hstatus := ((stateAt h first i).readRegister_status board (CpuMemory.at?_of_isStatus hs)).2
    rw [stateAt_succ he, events, if_pos hregister]
    exact hstatus

end Happening

/-! ## The console -/

namespace Console

open Happening (StatusLaw replay latched? written?)

/-- **The status of a console.** From bring-up on, for all actions of its CPU, its picture unit and a
host: the picture unit goes through the history of the run, and on the history the status follows
its law. -/
theorem status_history {c : Cartridge} {journal : Journal} {m : Console}
    (h : Console.ofCartridge c journal = .ok m) (as : List Action) :
    (m.actAll as).ppu = replay (m.history as) .powerOn ∧
      StatusLaw latched? (m.history as) .powerOn := by
  have hleads := Machine.leads_history as m
  rw [Console.ppu_ofCartridge h] at hleads
  exact ⟨hleads.state, Happening.statusLaw_of_leads hleads (by decide) rfl rfl⟩

/-- A host reads the status after two dots, at the start of the first vertical blank. -/
theorem status_history_idleProgram :
    ∃ m : Console, Console.ofCartridge (.ofBank idleProgram #[]) {} = .ok m ∧
      StatusLaw latched? (m.history [.dot, .dot, .read 0x2002]) .powerOn ∧
      (m.history [.dot, .dot, .read 0x2002])[2]? = some (.read m.dot.dot.board 0x2002 0x80) := by
  obtain ⟨m, hm, -, -⟩ := Console.ofCartridge_ofBank idleProgram #[] {}
  obtain ⟨-, hlaw⟩ := status_history hm [.dot, .dot, .read 0x2002]
  refine ⟨m, hm, hlaw, ?_⟩
  have hdark : ∀ (p : Ppu) (board : UxRom), p.rendering = false →
      p.step board = p.tick.updateVblank := fun p board hp => by
    rw [Ppu.step_eq_stages, Ppu.renderDot_tick_of_not_rendering (Bool.eq_false_iff.mp hp)]
  have hstatus : m.dot.dot.ppu.status = 0x80 := by
    rw [Machine.ppu_dot, Machine.ppu_dot, Console.ppu_ofCartridge hm, hdark Ppu.powerOn _ rfl,
      hdark _ _ rfl]
    decide
  show some (Happening.read m.dot.dot.board 0x2002 m.dot.dot.ppu.status) = _
  rw [hstatus]

/-- A page of registers is copied. The third read of the copy is one of the status, and its answer
has nothing of the number of the page, which comes into the latch with the page itself. -/
theorem status_history_copy :
    ∃ m : Console, Console.ofCartridge (.ofBank idleProgram #[]) {} = .ok m ∧
      (m.history [.write 0x4014 0x3F])[3]? = some (.read m.board 0x3F02 0) ∧
      Happening.lastByte written? ((m.history [.write 0x4014 0x3F]).take 3) = 0x3F ∧
      ¬ StatusLaw written? (m.history [.write 0x4014 0x3F]) .powerOn := by
  obtain ⟨m, hm, -, -⟩ := Console.ofCartridge_ofBank idleProgram #[] {}
  -- of the first three reads of the copy only the last one reads the status
  have hrange : ∀ (n : Nat) (c : CpuMemory UxRom), ∃ rest, c.rangeHappenings (n + 3) 0x3F00 =
      .read c.board 0x3F00 0 :: .read c.board 0x3F01 0 :: .read c.board 0x3F02 c.ppu.status ::
        rest := fun n c => ⟨(c.read 0x3F02).2.rangeHappenings n 0x3F03, rfl⟩
  obtain ⟨rest, hhistory⟩ : ∃ rest, m.history [.write 0x4014 0x3F] =
      .write m.board 0x4014 0x3F :: .read m.board 0x3F00 0 :: .read m.board 0x3F01 0 ::
        .read m.board 0x3F02 m.ppu.status :: rest := by
    obtain ⟨rest, hrest⟩ := hrange 253 m.memory
    refine ⟨rest ++ [.stored 0x3F (readPage CpuMemory.read m.memory 0x3F).1], ?_⟩
    show m.memory.writeHappenings oamDmaAddress 0x3F ++ [] = _
    rw [List.append_nil, CpuMemory.writeHappenings_oamDma]
    show _ :: (m.memory.rangeHappenings (253 + 3) 0x3F00 ++ _) = _
    rw [hrest]
    rfl
  have hstatus : m.ppu.status = 0 := by
    rw [Console.ppu_ofCartridge hm]
    rfl
  rw [hstatus] at hhistory
  have hbyte : Happening.lastByte written? ((m.history [.write 0x4014 0x3F]).take 3) = 0x3F := by
    rw [hhistory]
    rfl
  have hread : (m.history [.write 0x4014 0x3F])[3]? = some (.read m.board 0x3F02 0) := by
    rw [hhistory]
    rfl
  refine ⟨m, hm, hread, hbyte, fun hlaw => ?_⟩
  have hanswer := hlaw.answer 3 m.board 0x3F02 0 hread rfl
  rw [hbyte] at hanswer
  -- the low bits would be those of the number of the page
  have hlow : (0x3F : UInt8).toNat % 32 = 31 := rfl
  rw [hlow] at hanswer
  have hzero : (0 : UInt8).toNat = 0 := rfl
  omega

end Console

end Nes
