import Nes.Proofs.Ppu.NmiHistory
import Nes.Proofs.Ppu.Position

/-!
# The status byte

The status is three flags over the low five bits of the latch (`toNat_status`). The flag of the
vertical blank goes up at the dot that starts it, and down at the dot that ends it or when the
status is read; between these two dots lies the window in which it can be set, and nothing but a dot
moves the beam into the window or out of it (`Beam.inVblank_advance`).
-/

set_option autoImplicit false

namespace Nes

namespace Beam

/-- From dot 1 of line 241 up to dot 0 of line 261. -/
def InVblank (b : Beam) : Prop :=
  (241 < b.scanline ∨ b.scanline = 241 ∧ 1 ≤ b.dot) ∧
    (b.scanline < 261 ∨ b.scanline = 261 ∧ b.dot = 0)

instance (b : Beam) : Decidable b.InVblank := inferInstanceAs (Decidable (_ ∧ _))

theorem inVblank_of_startsVblank {b : Beam} (h : b.startsVblank = true) : b.InVblank := by
  obtain ⟨hline, hdot⟩ := b.startsVblank_iff.mp h
  unfold InVblank
  omega

theorem not_inVblank_of_endsVblank {b : Beam} (h : b.endsVblank = true) : ¬ b.InVblank := by
  obtain ⟨hline, hdot⟩ := b.endsVblank_iff.mp h
  unfold InVblank
  omega

/-- A dot that neither starts nor ends the vertical blank stays within the window or outside, and
within the frame if it stays within the window. -/
theorem inVblank_advance {b : Beam} {rendering : Bool}
    (hstart : (b.advance rendering).startsVblank = false)
    (hend : (b.advance rendering).endsVblank = false) :
    ((b.advance rendering).InVblank ↔ b.InVblank) ∧
      (b.InVblank → (b.advance rendering).frame = b.frame) := by
  have hstart' := mt (startsVblank_iff _).mpr (Bool.eq_false_iff.mp hstart)
  have hend' := mt (endsVblank_iff _).mpr (Bool.eq_false_iff.mp hend)
  unfold InVblank
  rcases b.advance_cases rendering with ⟨hs, he⟩ | ⟨-, hd, he⟩ | ⟨hd, hl, he⟩ | ⟨hd, hl, he⟩
  · rw [he]
    simp only [Beam.nextFrame]
    omega
  · rw [he] at hstart' hend' ⊢
    dsimp only at *
    omega
  · rw [he]
    dsimp only
    omega
  · rw [he]
    simp only [Beam.nextFrame]
    omega

end Beam

namespace Ppu

/-! ## The byte -/

/-- **The status as a number**: the flags of the vertical blank, of a hit and of an overflow, and the
low five bits of the latch. -/
theorem toNat_status (p : Ppu) :
    p.status.toNat = 128 * p.inVblank.toNat + 64 * p.spriteZeroHit.toNat +
      32 * p.spriteOverflow.toNat + p.latch.toNat % 32 := by
  have hlow : (p.latch &&& 0x1F).toNat = p.latch.toNat % 2 ^ 5 := by
    rw [UInt8.toNat_and]
    exact Nat.and_two_pow_sub_one_eq_mod p.latch.toNat 5
  have hflag : ∀ on : Bool, (if on then 0x20 else 0 : UInt8).toNat = 2 ^ 5 * on.toNat ∧
      (if on then 0x40 else 0 : UInt8).toNat = 2 ^ 6 * on.toNat ∧
      (if on then 0x80 else 0 : UInt8).toNat = 2 ^ 7 * on.toNat := by decide
  have hone : ∀ on : Bool, on.toNat ≤ 1 := by decide
  -- each flag lies above all that has been put together before it
  have hjoin : ∀ {low n : Nat} (on : Bool), low < 2 ^ n →
      low ||| 2 ^ n * on.toNat = 2 ^ n * on.toNat + low := fun on h => by
    rw [Nat.or_comm, ← Nat.two_pow_add_eq_or_of_lt h]
  have hlatch : p.latch.toNat % 2 ^ 5 < 2 ^ 5 := Nat.mod_lt _ (by decide)
  have hover := hone p.spriteOverflow
  have hhit := hone p.spriteZeroHit
  have hjoined : p.status.toNat = p.latch.toNat % 2 ^ 5 ||| 2 ^ 5 * p.spriteOverflow.toNat |||
      2 ^ 6 * p.spriteZeroHit.toNat ||| 2 ^ 7 * p.nmi.occurred.toNat := by
    simp only [status, UInt8.toNat_or, hlow, (hflag _).1, (hflag _).2.1, (hflag _).2.2]
  rw [hjoined, hjoin p.spriteOverflow hlatch, hjoin p.spriteZeroHit (by omega),
    hjoin p.nmi.occurred (by omega), inVblank]
  omega

variable {μ : Type} [Board μ]

/-- A read of the status answers with the byte and leaves the flags of sprites alone. -/
theorem readRegister_status (p : Ppu) (board : μ) {addr : UInt16}
    (h : Register.at? addr = some .status) :
    (p.readRegister board addr).1 = p.status ∧
      (p.readRegister board addr).2.spriteZeroHit = p.spriteZeroHit ∧
      (p.readRegister board addr).2.spriteOverflow = p.spriteOverflow := by
  unfold readRegister
  rw [h]
  exact ⟨rfl, rfl, rfl⟩

/-! ## Its parts through an event -/

/-- The flag of the vertical blank through an event. -/
theorem inVblank_after (p : Ppu) (e : Event μ) :
    (p.after e).inVblank =
      match e with
      | .dot _ =>
          if (p.beam.advance p.rendering).startsVblank then true
          else if (p.beam.advance p.rendering).endsVblank then false
          else p.inVblank
      | .read _ addr => if Register.at? addr = some .status then false else p.inVblank
      | _ => p.inVblank := by
  cases e with
  | dot board =>
      have htick : p.nmi.tick.occurred = p.nmi.occurred := by
        unfold NmiLatch.tick
        split <;> rfl
      show (p.step board).nmi.occurred = _
      rw [nmi_step, apply_ite NmiLatch.occurred, apply_ite NmiLatch.occurred, htick]
      rfl
  | read board addr =>
      show (p.readRegister board addr).2.nmi.occurred = _
      rw [nmi_readRegister, apply_ite NmiLatch.occurred]
      rfl
  | write board addr value =>
      show (p.writeRegister board addr value).1.nmi.occurred = _
      rw [nmi_writeRegister, apply_ite NmiLatch.occurred]
      exact ite_self _
  | storePage page bytes =>
      obtain ⟨_, _, h⟩ := p.writeOamPage_shape page bytes
      rw [after, h]
      rfl
  | takeNmi => rfl
  | reset => rfl

/-- The latch through an event: it holds the byte of the last write. -/
theorem latch_after (p : Ppu) (e : Event μ) :
    (p.after e).latch =
      match e with
      | .write _ _ value => value
      | .storePage page _ => page
      | _ => p.latch := by
  cases e with
  | dot board =>
      obtain ⟨_, _, _, _, _, _, _, _, _, h⟩ := p.step_shape board
      rw [after, h]
  | read board addr =>
      obtain ⟨_, _, _, _, _, h⟩ := p.readRegister_shape board addr
      rw [after, h]
  | write board addr value =>
      obtain ⟨_, _, _, _, _, _, _, _, h⟩ := p.writeRegister_shape board addr value
      rw [after, h]
  | storePage page bytes =>
      obtain ⟨_, _, h⟩ := p.writeOamPage_shape page bytes
      rw [after, h]
  | takeNmi => rfl
  | reset => rfl

end Ppu

end Nes
