import Nes.Board.IrqWindow
import Nes.Proofs.Ppu.Fault
import Nes.Proofs.Ppu.NmiHistory
import Nes.Proofs.Ppu.Session

/-!
# Timing does not depend on the picture

When the beam is where, and when interrupts are due, is decided by the beam, the control and mask
registers and the interrupt line alone (`SameTiming`). Everything else a picture unit holds, and the
board it is wired to, is data of the picture, and no request lets one into the other
(`SameTiming.perform`). So two picture units with different pictures cannot be told apart by their
timing, whatever is asked of them (`observations_eq`).
-/

set_option autoImplicit false

namespace Nes.Ppu

variable {μ ν : Type} [Board μ] [Board ν]

/-- Two picture units agree in what decides their timing. -/
structure SameTiming (p q : Ppu) : Prop where
  beam : p.beam = q.beam
  ctrl : p.ctrl = q.ctrl
  mask : p.mask = q.mask
  nmi : p.nmi = q.nmi

/-! ## What a request does to the timing -/

namespace SameTiming

variable {p q : Ppu}

theorem rendering (h : SameTiming p q) : p.rendering = q.rendering := by
  rw [Ppu.rendering, Ppu.rendering, h.mask]

theorem step (h : SameTiming p q) (board : μ) (board' : ν) :
    SameTiming (p.step board) (q.step board') where
  beam := by rw [beam_step, beam_step, h.beam, h.rendering]
  ctrl := by rw [ctrl_step, ctrl_step, h.ctrl]
  mask := by rw [mask_step, mask_step, h.mask]
  nmi := by rw [nmi_step, nmi_step, h.beam, h.rendering, h.nmi]

theorem readRegister (h : SameTiming p q) (board : μ) (board' : ν) (addr : UInt16) :
    SameTiming (p.readRegister board addr).2 (q.readRegister board' addr).2 := by
  obtain ⟨_, _, _, _, _, hp⟩ := p.readRegister_shape board addr
  obtain ⟨_, _, _, _, _, hq⟩ := q.readRegister_shape board' addr
  constructor
  case nmi => rw [nmi_readRegister, nmi_readRegister, h.nmi]
  all_goals rw [hp, hq]
  case beam => exact h.beam
  case ctrl => exact h.ctrl
  case mask => exact h.mask

theorem writeRegister (h : SameTiming p q) (board : μ) (board' : ν) (addr : UInt16)
    (value : UInt8) :
    SameTiming (p.writeRegister board addr value).1 (q.writeRegister board' addr value).1 where
  beam := by
    obtain ⟨_, _, _, _, _, _, _, _, hp⟩ := p.writeRegister_shape board addr value
    obtain ⟨_, _, _, _, _, _, _, _, hq⟩ := q.writeRegister_shape board' addr value
    rw [hp, hq]
    exact h.beam
  ctrl := by rw [ctrl_writeRegister, ctrl_writeRegister, h.ctrl]
  mask := by rw [mask_writeRegister, mask_writeRegister, h.mask]
  nmi := by rw [nmi_writeRegister, nmi_writeRegister, h.nmi]

/-- No request lets the picture into the timing. -/
theorem perform {s : Session μ} {t : Session ν} (h : SameTiming s.ppu t.ppu) (r : Request) :
    SameTiming (s.perform r).ppu (t.perform r).ppu := by
  cases r with
  | dot => exact h.step s.board t.board
  | read addr => exact h.readRegister s.board t.board addr
  | write addr value => exact h.writeRegister s.board t.board addr value
  | takeNmi => exact ⟨h.beam, h.ctrl, h.mask, by simp only [Session.perform, takeNmi, h.nmi]⟩

end SameTiming

/-! ## Observations -/

/-- What a request shows of the timing: the position of the beam and the vertical blank afterwards,
and what it was handed if it asked for an interrupt. -/
structure Observation where
  dot : Nat
  scanline : Nat
  frame : Nat
  vblank : Bool
  taken : Option Bool
  deriving DecidableEq, Repr

namespace Session

/-- What one request shows. -/
def observe (s : Session μ) (r : Request) : Observation where
  dot := (s.perform r).ppu.beam.dot
  scanline := (s.perform r).ppu.beam.scanline
  frame := (s.perform r).ppu.beam.frame
  vblank := (s.perform r).ppu.inVblank
  taken := s.taken? r

/-- What some requests show, one after the other. -/
def observations (s : Session μ) (rs : List Request) : List Observation := s.collect observe rs

theorem observe_eq {s : Session μ} {t : Session ν} (h : SameTiming s.ppu t.ppu) (r : Request) :
    s.observe r = t.observe r := by
  have hr := h.perform r
  have htaken : s.taken? r = t.taken? r := by
    cases r with
    | takeNmi => exact congrArg (fun l => some l.pending) h.nmi
    | dot | read | write => rfl
  simp only [observe, inVblank, hr.beam, hr.nmi, htaken]

/-- **Timing does not depend on the picture.** Two picture units that agree in their beam, their
control and mask registers and their interrupt line show the same timing through any requests,
however different they are otherwise and whatever boards they are wired to. -/
theorem observations_eq {s : Session μ} {t : Session ν} (h : SameTiming s.ppu t.ppu)
    (rs : List Request) : s.observations rs = t.observations rs := by
  induction rs generalizing s t with
  | nil => rfl
  | cons r rs ih =>
      have htail : (s.perform r).observations rs = (t.perform r).observations rs := ih (h.perform r)
      show s.observe r :: (s.perform r).observations rs =
        t.observe r :: (t.perform r).observations rs
      rw [observe_eq h, htail]

/-- A blank picture and another one, on boards of different kinds, through a vertical blank that is
read away and an access to picture memory. -/
theorem observations_eq_otherPicture :
    let p : Ppu := { beam := { dot := 339, scanline := 240 }, ctrl := 0x80, mask := 0x1E }
    let q : Ppu :=
      { p with
        scroll := { v := 0x2345, t := 0x0C00, fineX := 5, second := true }
        vram := ⟨Vector.replicate _ 0xFF, Vector.replicate _ 0x30⟩
        oam := Vector.replicate _ 7
        oamAddr := 0x80
        buffer := 0x55
        spriteZeroHit := true }
    let rs := [Request.write 0x2007 0x99, .dot, .dot, .dot, .read 0x2007, .read 0x2002, .takeNmi]
    SameTiming p q ∧ (⟨p, UxRom.blank⟩ : Session UxRom).observations rs =
      (⟨q, ⟨UxRom.blank, 0, 9, 0⟩⟩ : Session (IrqWindow UxRom)).observations rs := by
  intro p q rs
  have h : SameTiming p q := ⟨rfl, rfl, rfl, rfl⟩
  exact ⟨h, observations_eq h rs⟩

end Session

end Nes.Ppu
