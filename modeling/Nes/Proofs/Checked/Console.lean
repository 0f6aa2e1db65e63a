import Nes.Proofs.Checked.Machine

/-!
# Consoles do not fail

A cartridge has all bytes of picture memory if its image says so, if its picture memory was put
together with all of them, or if it was left out. A console that came up with such a cartridge is
sound, so no operation of a host fails in it (`Console.performAllChecked_of_broughtUp`), and its
picture unit stays within its bounds at every event.
-/

set_option autoImplicit false

namespace Nes

/-! ## Bring-up -/

/-- Cartridges put together with all bytes of picture memory or with none, with or without an image
for their save memory. -/
inductive Cartridge.Built : Cartridge → Prop
  | ofParts (prg chr : Array UInt8) (mapper : UInt8) (mirroring : Mirroring) (battery : Bool)
      (h : chr.isEmpty = true ∨ chrBankSize ≤ chr.size) :
      Built (.ofParts prg chr mapper mirroring battery)
  | withSram {c : Cartridge} (h : Built c) (image : Array UInt8) : Built (c.withSram image)

theorem Cartridge.Built.le_size_chr {c : Cartridge} (h : c.Built) : 0x2000 ≤ c.chr.size := by
  induction h with
  | ofParts prg chr mapper mirroring battery h =>
      show 0x2000 ≤ (if chr.isEmpty then Array.replicate chrBankSize 0 else chr).size
      split
      · rw [Array.size_replicate]
        decide
      · next hne => exact h.resolve_left hne
  | withSram _ _ ih =>
      rw [Cartridge.withSram]
      exact ih

/-- An image that can be read has whole units of picture memory. -/
theorem INes.built_of_parse {image : Array UInt8} {c : Cartridge} (h : parse image = .ok c) :
    c.Built := by
  unfold parse at h
  cases hheader : readHeader image with
  | error e => simp [hheader, bind, Except.bind] at h
  | ok header =>
      simp only [hheader, bind, Except.bind] at h
      split at h
      · cases h
      · split at h
        · cases h
        · split at h
          · cases h
          · next hlen =>
              cases h
              apply Cartridge.Built.ofParts
              have hsize : (image.extract header.chrOffset
                  (header.chrOffset + header.chrSize)).size = header.chrUnits * chrBankSize := by
                rw [Array.size_extract, Nat.min_eq_left (Nat.le_of_not_lt hlen),
                  Nat.add_sub_cancel_left]
                rfl
              rw [Array.isEmpty_iff_size_eq_zero, hsize]
              cases header.chrUnits with
              | zero => exact .inl (Nat.zero_mul _)
              | succ units => exact .inr (Nat.le_mul_of_pos_left _ units.succ_pos)

namespace Console

/-- A console that has come up from an image, or with a cartridge that was put together. -/
inductive BroughtUp (m : Console) : Prop
  | ofImage (image : Array UInt8) (journal : Journal) (h : Console.ofImage image journal = .ok m)
  | ofCartridge (c : Cartridge) (journal : Journal) (hc : c.Built)
      (h : Console.ofCartridge c journal = .ok m)

/-- In both cases it has come up with a cartridge that was put together. -/
theorem BroughtUp.exists_cartridge {m : Console} (h : BroughtUp m) :
    ∃ (c : Cartridge) (journal : Journal), c.Built ∧ Console.ofCartridge c journal = .ok m := by
  cases h with
  | ofImage image journal h =>
      unfold Console.ofImage INes.load at h
      cases hparse : INes.parse image with
      | error e => simp [hparse, Except.bind] at h
      | ok c =>
          rw [hparse] at h
          exact ⟨c, _, INes.built_of_parse hparse, h⟩
  | ofCartridge c journal hc h => exact ⟨c, journal, hc, h⟩

theorem BroughtUp.ppu {m : Console} (h : BroughtUp m) : m.ppu = .powerOn := by
  obtain ⟨c, journal, -, hm⟩ := h.exists_cartridge
  exact ppu_ofCartridge hm

theorem BroughtUp.sound {m : Console} (h : BroughtUp m) : m.memory.Sound := by
  obtain ⟨c, journal, hc, hm⟩ := h.exists_cartridge
  have hppu : m.ppu.Sound := h.ppu ▸ Ppu.sound_powerOn
  have hchr : 0x2000 ≤ m.board.cartridge.chr.size := by
    rw [cartridge_ofCartridge hm]
    exact hc.le_size_chr
  exact ⟨hppu, hchr⟩

/-- The counters of a new console fit throughout a billion operations. -/
theorem BroughtUp.countersFit {m : Console} (h : BroughtUp m) {ops done : List HostOp}
    (hops : ops.length ≤ 2 ^ 30) (hdone : done <+: ops) :
    Machine.CountersFit (m.performAll done) := by
  obtain ⟨c, journal, -, hm⟩ := h.exists_cartridge
  have hcycles : m.cpu.cycles = 0 := congrArg Cpu.Timing.cycles (Machine.timing_ofCartridge hm)
  have hframe : m.ppu.beam.frame = 0 := by
    rw [h.ppu]
    rfl
  have hdots : Beam.dotsPerFrame = 89342 := rfl
  have hroom : Machine.Room (2 ^ 53) (ops.length * Beam.dotsPerFrame) m := by
    rw [hdots]
    constructor <;> omega
  exact Machine.countersFit_performAll hroom hdone

end Console

/-! ## Bounds of the picture unit -/

/-- The scroll registers and the sprites found are within their bounds, and so are the rows that the
picture unit fetches: of the current tile, and of any entry on a line that it covers, both planes
lie in the window of the cartridge. -/
structure Ppu.WithinBounds (p : Ppu) : Prop where
  v_lt : p.scroll.v.toNat < 0x8000
  t_lt : p.scroll.t.toNat < 0x8000
  fineX_le : p.scroll.fineX.toNat ≤ 7
  slots : p.sprites.length ≤ 8
  background : (Background.patternAddress p.backgroundTable p.background.tile
    p.scroll.v).toNat + 8 < 0x2000
  sprite : ∀ (line : Nat) (entry : Fin 64), p.oam.covers p.spriteShape.height line entry = true →
    (Sprite.rowAddress p.spriteShape p.oam entry
      (UInt16.ofNat (line - (p.oam.line entry).toNat))).toNat + 8 < 0x2000

theorem Ppu.Sound.withinBounds {p : Ppu} (h : p.Sound) : p.WithinBounds where
  v_lt := h.scroll.v_lt
  t_lt := h.scroll.t_lt
  fineX_le := Nat.le_of_lt_succ h.scroll.fineX_lt
  slots := h.slots
  background := Background.patternAddress_lt _ _ _
  sprite line entry hcovers := by
    rw [Sprite.toNat_rowAddress p.oam p.spriteShape hcovers]
    exact Sprite.planeAddress_lt p.oam p.spriteShape hcovers

/-! ## Consoles -/

/-- **Consoles do not fail.** While the counters are below `2 ^ 53`, every operation on a console
that has come up has its result with all operations inside it checked. Its picture unit goes from
power-on through the events of the operations and is within its bounds after each of them, and the
selected bank is one that the cartridge has. -/
theorem Console.performAllChecked_of_broughtUp {m : Console} (h : Console.BroughtUp m)
    {ops : List HostOp} (hfit : ∀ done, done <+: ops → Machine.CountersFit (m.performAll done)) :
    m.performAllChecked ops = some (m.performAll ops) ∧
      (m.performAll ops).ppu = Ppu.run (m.opsEvents ops) .powerOn ∧
      (∀ es, es <+: m.opsEvents ops → (Ppu.run es .powerOn).WithinBounds) ∧
      (m.performAll ops).board.bank < (m.performAll ops).board.bankCount := by
  refine ⟨Machine.performAllChecked_eq h.sound hfit, ?_, fun es hes => ?_,
    (m.performAll ops).board.bank_lt⟩
  · rw [Machine.ppu_performAll, h.ppu]
  · have hreset : Ppu.Event.reset ∉ es := fun hmem =>
      m.reset_notMem_opsEvents ops (hes.subset hmem)
    exact (Ppu.sound_powerOn.run hreset).withinBounds

/-- A cartridge without picture memory, a write that lets the beam interrupt, a step and a frame. -/
theorem Console.performAllChecked_blank :
    ∃ m, Console.ofCartridge (.ofBank (fun _ => 0) #[]) {} = .ok m ∧
      m.performAllChecked [.write 0x2000 0x80, .step, .stepFrame] =
        some (m.performAll [.write 0x2000 0x80, .step, .stepFrame]) := by
  obtain ⟨m, hm, -, -⟩ := Console.ofCartridge_ofBank (fun _ => 0) #[] {}
  have hup : BroughtUp m := .ofCartridge _ {} (.ofParts _ #[] 0 .horizontal false (.inl rfl)) hm
  exact ⟨m, hm, (Console.performAllChecked_of_broughtUp hup fun _ => hup.countersFit (by decide)).1⟩

end Nes
