import Nes.Ppu.Step

/-!
# What an operation of the picture unit can change

Every operation is described once by its shape: the state it leaves is the state it found with a few
fields replaced. What all other fields keep follows by rewriting with the shape. Where later modules
need to know how a field changes and not only that it may, its equation stands behind the shape.
-/

set_option autoImplicit false

namespace Nes.Register

/-- Where a register lies. -/
def location : Register → UInt16
  | ctrl => 0x2000
  | mask => 0x2001
  | status => 0x2002
  | oamAddr => 0x2003
  | oamData => 0x2004
  | scroll => 0x2005
  | address => 0x2006
  | data => 0x2007

theorem at?_eq_some_iff {addr : UInt16} {r : Register} : at? addr = some r ↔ addr = r.location := by
  constructor
  · intro h
    unfold at? at h
    repeat' split at h
    all_goals first
      | (cases h; assumption)
      | cases h
  · rintro rfl
    cases r <;> decide

end Nes.Register

namespace Nes.Ppu

variable {μ : Type} [Board μ]

/-! ## Parts of a dot -/

theorem drawDot_shape (p : Ppu) :
    ∃ back hit, p.drawDot = { p with back := back, spriteZeroHit := hit } := by
  unfold drawDot
  split
  · exact ⟨_, _, rfl⟩
  · exact ⟨p.back, p.spriteZeroHit, rfl⟩

theorem fetchPlane_shape (p : Ppu) (board : μ) (high : Bool) :
    ∃ background fault,
      p.fetchPlane board high = { p with background := background, fault := fault } := by
  unfold fetchPlane
  dsimp only
  split
  · exact ⟨p.background, true, rfl⟩
  · split <;> exact ⟨_, p.fault, rfl⟩

theorem fetch_shape (p : Ppu) (board : μ) :
    ∃ background v fault, p.fetch board =
      { p with background := background, scroll := { p.scroll with v := v }, fault := fault } := by
  unfold fetch
  dsimp only
  split
  · exact ⟨_, p.scroll.v, p.fault, rfl⟩
  · exact ⟨_, p.scroll.v, p.fault, rfl⟩
  · obtain ⟨background, fault, h⟩ :=
      fetchPlane_shape { p with background := p.background.shift } board false
    exact ⟨background, p.scroll.v, fault, h⟩
  · obtain ⟨background, fault, h⟩ :=
      fetchPlane_shape { p with background := p.background.shift } board true
    exact ⟨background, p.scroll.v, fault, h⟩
  · exact ⟨_, _, p.fault, rfl⟩
  · exact ⟨_, p.scroll.v, p.fault, rfl⟩

theorem moveAddress_shape (p : Ppu) :
    ∃ v, p.moveAddress = { p with scroll := { p.scroll with v := v } } := by
  unfold moveAddress
  split
  · exact ⟨_, rfl⟩
  · split
    · exact ⟨_, rfl⟩
    · split
      · exact ⟨_, rfl⟩
      · exact ⟨p.scroll.v, rfl⟩

theorem selectSprites_shape (p : Ppu) (board : μ) :
    ∃ sprites overflow fault, p.selectSprites board =
      { p with sprites := sprites, spriteOverflow := overflow, fault := fault } := by
  unfold selectSprites
  split
  · split
    · exact ⟨_, _, _, rfl⟩
    · exact ⟨[], p.spriteOverflow, p.fault, rfl⟩
  · exact ⟨p.sprites, p.spriteOverflow, p.fault, rfl⟩

/-! ## A dot

A dot while something is rendered is four stages, one after the other: the pixel, the fetch cycle,
the current address, the sprites. -/

/-- The fetch cycle at a dot, if it has one. -/
def fetchDot (p : Ppu) (board : μ) : Ppu :=
  if p.beam.renders && p.beam.fetches then p.fetch board else p

/-- The movement of the current address at a dot, if it has one. -/
def moveDot (p : Ppu) : Ppu := if p.beam.renders then p.moveAddress else p

theorem render_eq_stages (p : Ppu) (board : μ) :
    p.render board = ((p.drawDot.fetchDot board).moveDot).selectSprites board := rfl

theorem fetchDot_shape (p : Ppu) (board : μ) :
    ∃ background v fault, p.fetchDot board =
      { p with background := background, scroll := { p.scroll with v := v }, fault := fault } := by
  unfold fetchDot
  split
  · exact p.fetch_shape board
  · exact ⟨p.background, p.scroll.v, p.fault, rfl⟩

theorem moveDot_shape (p : Ppu) :
    ∃ v, p.moveDot = { p with scroll := { p.scroll with v := v } } := by
  unfold moveDot
  split
  · exact p.moveAddress_shape
  · exact ⟨p.scroll.v, rfl⟩

/-- The stages before the search for sprites. -/
theorem moveDot_fetchDot_drawDot_shape (p : Ppu) (board : μ) :
    ∃ back hit background v fault, (p.drawDot.fetchDot board).moveDot =
      { p with
        back := back
        spriteZeroHit := hit
        background := background
        scroll := { p.scroll with v := v }
        fault := fault } := by
  obtain ⟨back, hit, hd⟩ := p.drawDot_shape
  obtain ⟨background, v, fault, hf⟩ := p.drawDot.fetchDot_shape board
  obtain ⟨v', hm⟩ := (p.drawDot.fetchDot board).moveDot_shape
  refine ⟨back, hit, background, v', fault, ?_⟩
  rw [hm, hf, hd]

theorem render_shape (p : Ppu) (board : μ) :
    ∃ back hit background v sprites overflow fault, p.render board =
      { p with
        back := back
        spriteZeroHit := hit
        background := background
        scroll := { p.scroll with v := v }
        sprites := sprites
        spriteOverflow := overflow
        fault := fault } := by
  obtain ⟨back, hit, background, v, fault, hm⟩ := p.moveDot_fetchDot_drawDot_shape board
  obtain ⟨sprites, overflow, fault', hs⟩ :=
    ((p.drawDot.fetchDot board).moveDot).selectSprites_shape board
  refine ⟨back, hit, background, v, sprites, overflow, fault', ?_⟩
  rw [render_eq_stages, hs, hm]

/-- What a dot does to the picture before the vertical blank is looked at. -/
def renderDot (p : Ppu) (board : μ) : Ppu := if p.rendering then p.render board else p

theorem step_eq_stages (p : Ppu) (board : μ) :
    p.step board = (p.tick.renderDot board).updateVblank := rfl

theorem renderDot_tick_of_rendering {p : Ppu} (hr : p.rendering = true) (board : μ) :
    p.tick.renderDot board = ((p.tick.drawDot.fetchDot board).moveDot).selectSprites board :=
  if_pos hr

theorem renderDot_tick_of_not_rendering {p : Ppu} (hr : ¬ p.rendering = true) (board : μ) :
    p.tick.renderDot board = p.tick :=
  if_neg hr

theorem renderDot_shape (p : Ppu) (board : μ) :
    ∃ back hit background v sprites overflow fault, p.renderDot board =
      { p with
        back := back
        spriteZeroHit := hit
        background := background
        scroll := { p.scroll with v := v }
        sprites := sprites
        spriteOverflow := overflow
        fault := fault } := by
  unfold renderDot
  split
  · exact p.render_shape board
  · exact ⟨p.back, p.spriteZeroHit, p.background, p.scroll.v, p.sprites, p.spriteOverflow, p.fault,
      rfl⟩

@[simp] theorem beam_renderDot (p : Ppu) (board : μ) : (p.renderDot board).beam = p.beam := by
  obtain ⟨_, _, _, _, _, _, _, h⟩ := p.renderDot_shape board
  rw [h]

/-- The stages after the pixel leave alone what it has drawn. -/
theorem drawn_renderDot (p : Ppu) (board : μ) :
    (p.renderDot board).back = (if p.rendering then p.drawDot.back else p.back) ∧
      (p.renderDot board).spriteZeroHit =
        if p.rendering then p.drawDot.spriteZeroHit else p.spriteZeroHit := by
  obtain ⟨_, _, _, hf⟩ := p.drawDot.fetchDot_shape board
  obtain ⟨_, hm⟩ := (p.drawDot.fetchDot board).moveDot_shape
  obtain ⟨_, _, _, hs⟩ := ((p.drawDot.fetchDot board).moveDot).selectSprites_shape board
  rw [renderDot, apply_ite back, apply_ite spriteZeroHit, render_eq_stages, hs, hm, hf]
  exact ⟨rfl, rfl⟩

theorem updateVblank_shape (p : Ppu) :
    ∃ front back nmi hit overflow, p.updateVblank =
      { p with
        front := front
        back := back
        nmi := nmi
        spriteZeroHit := hit
        spriteOverflow := overflow } := by
  unfold updateVblank
  split
  · exact ⟨p.back, p.front, _, p.spriteZeroHit, p.spriteOverflow, rfl⟩
  · split
    · exact ⟨p.front, p.back, _, false, false, rfl⟩
    · exact ⟨p.front, p.back, p.nmi, p.spriteZeroHit, p.spriteOverflow, rfl⟩

/-- A dot leaves all memories and all registers of the CPU alone, and of the scroll registers it
moves only the current address. -/
theorem step_shape (p : Ppu) (board : μ) :
    ∃ front back nmi hit background v sprites overflow fault, p.step board =
      { p with
        beam := p.beam.advance p.rendering
        front := front
        back := back
        nmi := nmi
        spriteZeroHit := hit
        background := background
        scroll := { p.scroll with v := v }
        sprites := sprites
        spriteOverflow := overflow
        fault := fault } := by
  obtain ⟨back, hit, background, v, sprites, overflow, fault, hr⟩ := p.tick.renderDot_shape board
  obtain ⟨front, back', nmi, hit', overflow', hu⟩ := (p.tick.renderDot board).updateVblank_shape
  refine ⟨front, back', nmi, hit', background, v, sprites, overflow', fault, ?_⟩
  rw [step_eq_stages, hu, hr]
  rfl

/-! ## Accesses by the CPU -/

theorem readData_shape (p : Ppu) (board : μ) :
    ∃ v buffer fault, (p.readData board).2 =
      { p with scroll := { p.scroll with v := v }, buffer := buffer, fault := fault } := by
  unfold readData
  dsimp only
  split <;> exact ⟨_, _, _, rfl⟩

/-- A read may end the vertical blank for the CPU, reset the toggle and move the current address. -/
theorem readRegister_shape (p : Ppu) (board : μ) (addr : UInt16) :
    ∃ nmi v second buffer fault, (p.readRegister board addr).2 =
      { p with
        nmi := nmi
        scroll := { p.scroll with v := v, second := second }
        buffer := buffer
        fault := fault } := by
  unfold readRegister
  split
  · exact ⟨_, p.scroll.v, false, p.buffer, p.fault, rfl⟩
  · exact ⟨p.nmi, p.scroll.v, p.scroll.second, p.buffer, p.fault, rfl⟩
  · obtain ⟨v, buffer, fault, h⟩ := p.readData_shape board
    exact ⟨p.nmi, v, p.scroll.second, buffer, fault, h⟩
  · exact ⟨p.nmi, p.scroll.v, p.scroll.second, p.buffer, p.fault, rfl⟩

/-- A write leaves the beam and all that is drawn or waits to be drawn alone. -/
theorem writeRegister_shape (p : Ppu) (board : μ) (addr : UInt16) (value : UInt8) :
    ∃ scroll vram oam oamAddr ctrl mask nmi fault, (p.writeRegister board addr value).1 =
      { p with
        scroll := scroll
        vram := vram
        oam := oam
        oamAddr := oamAddr
        latch := value
        ctrl := ctrl
        mask := mask
        nmi := nmi
        fault := fault } := by
  unfold writeRegister
  dsimp only
  split
  · exact ⟨_, p.vram, p.oam, p.oamAddr, value, p.mask, _, p.fault, rfl⟩
  · exact ⟨p.scroll, p.vram, p.oam, p.oamAddr, p.ctrl, value, p.nmi, p.fault, rfl⟩
  · exact ⟨p.scroll, p.vram, p.oam, value, p.ctrl, p.mask, p.nmi, p.fault, rfl⟩
  · exact ⟨p.scroll, p.vram, _, _, p.ctrl, p.mask, p.nmi, p.fault, rfl⟩
  · exact ⟨_, p.vram, p.oam, p.oamAddr, p.ctrl, p.mask, p.nmi, p.fault, rfl⟩
  · exact ⟨_, p.vram, p.oam, p.oamAddr, p.ctrl, p.mask, p.nmi, p.fault, rfl⟩
  · exact ⟨_, _, p.oam, p.oamAddr, p.ctrl, p.mask, p.nmi, _, rfl⟩
  · exact ⟨p.scroll, p.vram, p.oam, p.oamAddr, p.ctrl, p.mask, p.nmi, p.fault, rfl⟩
  · exact ⟨p.scroll, p.vram, p.oam, p.oamAddr, p.ctrl, p.mask, p.nmi, p.fault, rfl⟩

/-- Storing a page changes sprite memory, its address and the latch. -/
theorem writeOamPage_shape (p : Ppu) (page : UInt8) (bytes : Array UInt8) :
    ∃ oam oamAddr, p.writeOamPage page bytes =
      { p with oam := oam, oamAddr := oamAddr, latch := page } := by
  let kept (q : Ppu) : Prop :=
    ∃ oam oamAddr, q = { p with oam := oam, oamAddr := oamAddr, latch := page }
  have hstep : ∀ (q : Ppu) (value : UInt8), kept q → kept (q.writeOam value) := by
    rintro q value ⟨oam, oamAddr, rfl⟩
    exact ⟨_, _, rfl⟩
  exact Array.foldl_induction (fun _ => kept) ⟨p.oam, p.oamAddr, rfl⟩
    fun _ q hq => hstep q _ hq

end Nes.Ppu
