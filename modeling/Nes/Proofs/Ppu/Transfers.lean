import Nes.Proofs.Ppu.Run
import Nes.Proofs.Ppu.Session

/-!
# Transfers into picture memory

Programs fill picture memory and sprite memory through the registers while the beam goes on. While
something is rendered the beam moves the current address, on the visible lines and on the line
before them; a dot with rendering off, or on one of the lines between, leaves alone all that a
transfer looks at. So such dots can be taken out of a transfer, wherever they are in it
(`Session.performAll_withoutDots`). No access of a transfer writes the mask, so if rendering is off
at the start, all dots can be taken out (`Session.performAll_withoutDots_of_blank`).

No dot at all changes what the CPU has stored: the beam moves the current address and nothing else
that the CPU can set (`sameStore_dot`).
-/

set_option autoImplicit false

namespace Nes.Ppu

variable {μ : Type}

/-! ## What transfers look at -/

/-- Two sessions agree in the memories and in the registers that only the CPU changes. -/
structure SameStore (a b : Session μ) : Prop where
  board : a.board = b.board
  nametable : a.ppu.vram.nametable = b.ppu.vram.nametable
  palette : a.ppu.vram.palette = b.ppu.vram.palette
  oam : a.ppu.oam = b.ppu.oam
  oamAddr : a.ppu.oamAddr = b.ppu.oamAddr
  t : a.ppu.scroll.t = b.ppu.scroll.t
  fineX : a.ppu.scroll.fineX = b.ppu.scroll.fineX
  second : a.ppu.scroll.second = b.ppu.scroll.second
  ctrl : a.ppu.ctrl = b.ppu.ctrl
  mask : a.ppu.mask = b.ppu.mask
  buffer : a.ppu.buffer = b.ppu.buffer
  latch : a.ppu.latch = b.ppu.latch

/-- Two sessions agree in all that a transfer looks at. -/
structure SameVideo (a b : Session μ) : Prop extends SameStore a b where
  v : a.ppu.scroll.v = b.ppu.scroll.v
  fault : a.ppu.fault = b.ppu.fault

/-- The state with the beam, the interrupt line and the picture of another one. -/
def withDisplay (p q : Ppu) : Ppu :=
  { p with
    beam := q.beam
    nmi := q.nmi
    spriteZeroHit := q.spriteZeroHit
    spriteOverflow := q.spriteOverflow
    background := q.background
    sprites := q.sprites
    front := q.front
    back := q.back }

/-- The session with the display of another state. -/
def Session.withDisplay (s : Session μ) (q : Ppu) : Session μ :=
  { s with ppu := s.ppu.withDisplay q }

theorem Session.withDisplay_withDisplay (s : Session μ) (q q' : Ppu) :
    (s.withDisplay q).withDisplay q' = s.withDisplay q' := rfl

theorem sameVideo_withDisplay (s : Session μ) (q : Ppu) : SameVideo (s.withDisplay q) s := by
  constructor
  constructor
  all_goals rfl

variable [Board μ]

/-! ## Accesses -/

theorem readData_withDisplay (p q : Ppu) (board : μ) :
    (p.withDisplay q).readData board =
      ((p.readData board).1, (p.readData board).2.withDisplay q) := by
  unfold readData
  dsimp only
  split
  · next h => rw [if_pos (show p.scroll.v % 0x4000 < 0x3F00 from h)]; rfl
  · next h => rw [if_neg (show ¬ p.scroll.v % 0x4000 < 0x3F00 from h)]; rfl

/-- A read does not look at the display, unless it reads the status. -/
theorem readRegister_withDisplay (p q : Ppu) (board : μ) {addr : UInt16}
    (h : Register.at? addr ≠ some .status) :
    (p.withDisplay q).readRegister board addr =
      ((p.readRegister board addr).1, (p.readRegister board addr).2.withDisplay q) := by
  unfold readRegister
  split
  · next hstatus => exact absurd hstatus h
  · rfl
  · exact p.readData_withDisplay q board
  · rfl

/-- A write does not look at the display. -/
theorem writeRegister_withDisplay (p q : Ppu) (board : μ) (addr : UInt16) (value : UInt8) :
    (p.withDisplay q).writeRegister board addr value =
      ((p.writeRegister board addr value).1.withDisplay (q.writeRegister board addr value).1,
        (p.writeRegister board addr value).2) := by
  unfold writeRegister
  dsimp only
  split <;> rfl

/-! ## Dots -/

theorem selectSprites_of_not_visible {p : Ppu} (h : p.beam.visible = false) (board : μ) :
    ∃ sprites, p.selectSprites board = { p with sprites := sprites } := by
  unfold selectSprites
  split
  · rw [if_neg (by rw [h]; exact Bool.false_ne_true)]
    exact ⟨[], rfl⟩
  · exact ⟨p.sprites, rfl⟩

/-- Rendering on a line that is neither visible nor the one before draws nothing and moves nothing.
-/
theorem renderDot_of_not_renders {p : Ppu} (h : p.beam.renders = false) (board : μ) :
    p.renderDot board = p.withDisplay (p.renderDot board) := by
  by_cases hr : p.rendering = true
  · obtain ⟨back, hit, hd⟩ := p.drawDot_shape
    have hbeam : p.drawDot.beam = p.beam := by rw [hd]
    have hfetch : p.drawDot.fetchDot board = p.drawDot := by
      rw [fetchDot, hbeam, h, Bool.false_and, if_neg Bool.false_ne_true]
    have hmove : p.drawDot.moveDot = p.drawDot := by
      rw [moveDot, hbeam, h, if_neg Bool.false_ne_true]
    have hvisible : p.drawDot.beam.visible = false := by
      rw [hbeam]
      exact (Bool.or_eq_false_iff.mp h).1
    obtain ⟨sprites, hs⟩ := selectSprites_of_not_visible hvisible board
    rw [renderDot, if_pos hr, render_eq_stages, hfetch, hmove, hs, hd]
    rfl
  · rw [renderDot, if_neg hr]
    rfl

/-- A dot that leaves alone all that a transfer looks at: nothing is rendered, or the beam comes to
the lines between the visible ones and the one before them. -/
def QuietDot (s : Session μ) : Prop :=
  s.ppu.mask &&& 0x18 = 0 ∨
    240 ≤ (s.perform .dot).ppu.beam.scanline ∧ (s.perform .dot).ppu.beam.scanline ≤ 260

theorem QuietDot.perform_eq {s : Session μ} (h : QuietDot s) :
    s.perform .dot = s.withDisplay (s.perform .dot).ppu := by
  have hrender : s.ppu.tick.renderDot s.board =
      s.ppu.tick.withDisplay (s.ppu.tick.renderDot s.board) := by
    cases h with
    | inl hmask =>
        have hoff : ¬ s.ppu.tick.rendering = true := by
          show ¬ decide (s.ppu.mask &&& 0x18 ≠ 0) = true
          simp [hmask]
        rw [renderDot, if_neg hoff]
        rfl
    | inr hlines =>
        obtain ⟨hlow, hhigh⟩ := hlines
        have hbeam : (s.perform .dot).ppu.beam = s.ppu.tick.beam := s.ppu.beam_step s.board
        rw [hbeam] at hlow hhigh
        apply renderDot_of_not_renders
        have hvisible : ¬ s.ppu.tick.beam.scanline < 240 := Nat.not_lt.mpr hlow
        have hbefore : ¬ s.ppu.tick.beam.scanline = preRenderLine :=
          Nat.ne_of_lt (Nat.lt_succ_of_le hhigh)
        rw [Beam.renders, Beam.visible, Beam.preRender, decide_eq_false hvisible,
          decide_eq_false hbefore]
        rfl
  obtain ⟨front, back, nmi, hit, overflow, hu⟩ :=
    (s.ppu.tick.renderDot s.board).updateVblank_shape
  rw [Session.perform, step_eq_stages, hu, hrender]
  rfl

/-- **No dot changes what the CPU has stored**, rendering or not. -/
theorem sameStore_dot (s : Session μ) : SameStore (s.perform .dot) s := by
  obtain ⟨_, _, _, _, _, _, _, _, _, h⟩ := s.ppu.step_shape s.board
  show SameStore ⟨s.ppu.step s.board, s.board⟩ s
  rw [h]
  constructor
  all_goals rfl

/-! ## Transfers -/

/-- The accesses that make up a transfer: all registers but the mask and the status, and of the
control register only its writes. -/
def Request.isTransfer : Request → Bool
  | read addr => decide (0x2003 ≤ addr ∧ addr ≤ 0x2007)
  | write addr _ => decide (addr = 0x2000 ∨ 0x2003 ≤ addr ∧ addr ≤ 0x2007)
  | dot | takeNmi => false

/-- The requests without the dots among them. -/
def Request.withoutDots (rs : List Request) : List Request := rs.filter fun r => !r.isDot

theorem Request.withoutDots_cons {r : Request} (h : r.isTransfer = true) (rs : List Request) :
    withoutDots (r :: rs) = r :: withoutDots rs := by
  cases r with
  | dot => cases h
  | read | write | takeNmi => rfl

namespace Session

/-- An access of a transfer does the same whatever the display is. -/
theorem perform_withDisplay {r : Request} (h : r.isTransfer = true) (s : Session μ) (q : Ppu) :
    ∃ q', (s.withDisplay q).byte? r = s.byte? r ∧
      (s.withDisplay q).perform r = (s.perform r).withDisplay q' := by
  cases r with
  | dot | takeNmi => cases h
  | read addr =>
      have hread : (s.withDisplay q).ppu.readRegister (s.withDisplay q).board addr = _ :=
        s.ppu.readRegister_withDisplay q s.board fun hstatus => by
          rw [Request.isTransfer, Register.at?_eq_some_iff.mp hstatus] at h
          cases h
      refine ⟨q, ?_, ?_⟩
      · rw [byte?, hread]
        rfl
      · rw [perform, hread]
        rfl
  | write addr value =>
      have hwrite : (s.withDisplay q).ppu.writeRegister (s.withDisplay q).board addr value = _ :=
        s.ppu.writeRegister_withDisplay q s.board addr value
      refine ⟨(q.writeRegister s.board addr value).1, rfl, ?_⟩
      rw [perform, hwrite]
      rfl

/-- No access of a transfer writes the mask. -/
theorem mask_perform {r : Request} (h : r.isTransfer = true) (s : Session μ) :
    (s.perform r).ppu.mask = s.ppu.mask := by
  cases r with
  | dot | takeNmi => cases h
  | read addr =>
      obtain ⟨_, _, _, _, _, hr⟩ := s.ppu.readRegister_shape s.board addr
      show (s.ppu.readRegister s.board addr).2.mask = s.ppu.mask
      rw [hr]
  | write addr value =>
      refine (s.ppu.mask_writeRegister s.board addr value).trans (if_neg fun hmask => ?_)
      rw [Request.isTransfer, Register.at?_eq_some_iff.mp hmask] at h
      cases h

theorem mask_performAll {rs : List Request}
    (htransfer : ∀ r ∈ rs, r = .dot ∨ r.isTransfer = true) (s : Session μ) :
    (s.performAll rs).ppu.mask = s.ppu.mask := by
  induction rs generalizing s with
  | nil => rfl
  | cons r rs ih =>
      have htail := ih (fun r' h => htransfer r' (List.mem_cons_of_mem r h)) (s.perform r)
      rw [performAll_cons, htail]
      rcases htransfer r List.mem_cons_self with rfl | hr
      · exact (sameStore_dot s).mask
      · exact mask_perform hr s

/-- Taking the dots out of a transfer. The display may be any at the start, since every dot leaves
another one. -/
theorem performAll_withDisplay {rs : List Request}
    (htransfer : ∀ r ∈ rs, r = .dot ∨ r.isTransfer = true) (s : Session μ) (q : Ppu)
    (hquiet : ∀ before after, rs = before ++ .dot :: after →
      QuietDot ((s.withDisplay q).performAll before)) :
    ∃ q', (s.withDisplay q).bytes rs = s.bytes (Request.withoutDots rs) ∧
      (s.withDisplay q).performAll rs =
        (s.performAll (Request.withoutDots rs)).withDisplay q' := by
  induction rs generalizing s q with
  | nil => exact ⟨q, rfl, rfl⟩
  | cons r rs ih =>
      have htail : ∀ r ∈ rs, r = .dot ∨ r.isTransfer = true := fun r' h =>
        htransfer r' (List.mem_cons_of_mem r h)
      have hquiet' : ∀ before after, rs = before ++ .dot :: after →
          QuietDot (((s.withDisplay q).perform r).performAll before) :=
        fun before after h => hquiet (r :: before) after (congrArg (r :: ·) h)
      rw [bytes_cons, performAll_cons]
      rcases htransfer r List.mem_cons_self with rfl | hr
      · -- a dot is made in one run only, and changes its display
        have hdot := (hquiet [] rs rfl).perform_eq
        rw [performAll_nil, withDisplay_withDisplay] at hdot
        rw [hdot] at hquiet' ⊢
        obtain ⟨q', hbytes, hrun⟩ := ih htail s _ hquiet'
        exact ⟨q', hbytes, hrun⟩
      · -- any other request is made in both runs
        obtain ⟨q₁, hbyte, hperform⟩ := perform_withDisplay hr s q
        rw [hperform] at hquiet' ⊢
        obtain ⟨q', hbytes, hrun⟩ := ih htail (s.perform r) q₁ hquiet'
        rw [Request.withoutDots_cons hr, bytes_cons, performAll_cons, hbyte, hbytes]
        exact ⟨q', rfl, hrun⟩

theorem performAll_withoutDots {rs : List Request}
    (htransfer : ∀ r ∈ rs, r = .dot ∨ r.isTransfer = true) {s : Session μ}
    (hquiet : ∀ before after, rs = before ++ .dot :: after → QuietDot (s.performAll before)) :
    s.bytes rs = s.bytes (Request.withoutDots rs) ∧
      SameVideo (s.performAll rs) (s.performAll (Request.withoutDots rs)) := by
  obtain ⟨q, hbytes, hrun⟩ := performAll_withDisplay htransfer s s.ppu hquiet
  refine ⟨hbytes, ?_⟩
  rw [show s.performAll rs = _ from hrun]
  exact sameVideo_withDisplay _ q

/-- With rendering off, dots anywhere in a transfer make no difference. -/
theorem performAll_withoutDots_of_blank {rs : List Request}
    (htransfer : ∀ r ∈ rs, r = .dot ∨ r.isTransfer = true) {s : Session μ}
    (hblank : s.ppu.mask &&& 0x18 = 0) :
    s.bytes rs = s.bytes (Request.withoutDots rs) ∧
      SameVideo (s.performAll rs) (s.performAll (Request.withoutDots rs)) := by
  refine performAll_withoutDots htransfer fun before after hrs => Or.inl ?_
  have hbefore : ∀ r ∈ before, r = .dot ∨ r.isTransfer = true := fun r h =>
    htransfer r (hrs ▸ List.mem_append_left _ h)
  rw [mask_performAll hbefore, hblank]

end Session

/-- How transfers and dots go together, from a session on. -/
structure TransfersCommute (s : Session μ) : Prop where
  /-- The dots can be taken out of a transfer if all of them are quiet: the bytes that are read and
  all that is stored stay the same. -/
  takeOut : ∀ rs : List Request, (∀ r ∈ rs, r = .dot ∨ r.isTransfer = true) →
    (∀ before after, rs = before ++ .dot :: after → QuietDot (s.performAll before)) →
    s.bytes rs = s.bytes (Request.withoutDots rs) ∧
      SameVideo (s.performAll rs) (s.performAll (Request.withoutDots rs))
  /-- With rendering off at the start it stays off, and all dots can be taken out. -/
  blank : ∀ rs : List Request, (∀ r ∈ rs, r = .dot ∨ r.isTransfer = true) →
    s.ppu.mask &&& 0x18 = 0 →
    (s.performAll rs).ppu.mask &&& 0x18 = 0 ∧
      s.bytes rs = s.bytes (Request.withoutDots rs) ∧
      SameVideo (s.performAll rs) (s.performAll (Request.withoutDots rs))
  /-- No dot changes what is stored. -/
  kept : SameStore (s.perform .dot) s

/-- **Transfers commute with quiet dots**, with rendering off with all dots, and no dot changes what
they store. -/
theorem transfersCommute (s : Session μ) : TransfersCommute s where
  takeOut _ htransfer hquiet := Session.performAll_withoutDots htransfer hquiet
  blank rs htransfer hblank := by
    refine ⟨?_, Session.performAll_withoutDots_of_blank htransfer hblank⟩
    rw [Session.mask_performAll htransfer, hblank]
  kept := sameStore_dot s

end Nes.Ppu
