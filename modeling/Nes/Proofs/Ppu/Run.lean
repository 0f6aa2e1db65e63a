import Nes.Proofs.Ppu.Footprint

/-!
# Runs of the picture unit

A run is a list of events: dots, accesses by the CPU, pages stored in sprite memory, interrupts
taken and resets, in any order. The board is not part of the picture unit, so each event that looks
at it names the board it finds; between two events the board may have become any other.

`run_invariant` is the induction over a run. The equations after it follow one part of the state
through an event.
-/

set_option autoImplicit false

namespace Nes.Ppu

/-- What can happen to the picture unit. -/
inductive Event (μ : Type)
  | dot (board : μ)
  | read (board : μ) (addr : UInt16)
  | write (board : μ) (addr : UInt16) (value : UInt8)
  | storePage (page : UInt8) (bytes : Array UInt8)
  | takeNmi
  | reset

namespace Event

/-- Whether an event is a dot. -/
def isDot {μ : Type} : Event μ → Bool
  | dot _ => true
  | _ => false

/-- Whether an event is an access by the CPU. -/
def isAccess {μ : Type} : Event μ → Bool
  | read _ _ | write _ _ _ | storePage _ _ => true
  | _ => false

/-- Number of dots among events. -/
def dots {μ : Type} (es : List (Event μ)) : Nat := es.countP isDot

@[simp] theorem dots_nil {μ : Type} : dots ([] : List (Event μ)) = 0 := rfl

theorem dots_cons {μ : Type} (e : Event μ) (es : List (Event μ)) :
    dots (e :: es) = (if e.isDot then 1 else 0) + dots es := by
  rw [dots, List.countP_cons, Nat.add_comm]
  rfl

@[simp] theorem dots_append {μ : Type} (es es' : List (Event μ)) :
    dots (es ++ es') = dots es + dots es' :=
  List.countP_append

theorem reset_notMem_replicate {μ : Type} (board : μ) (n : Nat) :
    reset ∉ List.replicate n (dot board) := by
  intro h
  cases List.eq_of_mem_replicate h

theorem dots_replicate {μ : Type} (board : μ) (n : Nat) :
    dots (List.replicate n (dot board)) = n := by
  rw [dots, List.countP_replicate]
  rfl

end Event

variable {μ : Type} [Board μ]

/-- The state after an event. -/
def after (p : Ppu) : Event μ → Ppu
  | .dot board => p.step board
  | .read board addr => (p.readRegister board addr).2
  | .write board addr value => (p.writeRegister board addr value).1
  | .storePage page bytes => p.writeOamPage page bytes
  | .takeNmi => p.takeNmi
  | .reset => p.reset

/-- The state after a run. -/
def run (es : List (Event μ)) (p : Ppu) : Ppu := es.foldl after p

@[simp] theorem run_nil (p : Ppu) : run ([] : List (Event μ)) p = p := rfl

@[simp] theorem run_cons (e : Event μ) (es : List (Event μ)) (p : Ppu) :
    run (e :: es) p = run es (p.after e) := rfl

theorem run_append (es es' : List (Event μ)) (p : Ppu) :
    run (es ++ es') p = run es' (run es p) :=
  List.foldl_append

theorem run_concat (es : List (Event μ)) (e : Event μ) (p : Ppu) :
    run (es ++ [e]) p = (run es p).after e := by
  rw [run_append]
  rfl

/-- What every event of a run preserves holds at its end. -/
theorem run_invariant {P : Ppu → Prop} {es : List (Event μ)} {p : Ppu} (h : P p)
    (hstep : ∀ e ∈ es, ∀ q, P q → P (q.after e)) : P (run es p) := by
  induction es generalizing p with
  | nil => exact h
  | cons e es ih =>
      have he : P (p.after e) := hstep e List.mem_cons_self p h
      exact ih he fun e' h' => hstep e' (List.mem_cons_of_mem e h')

/-! ## Runs of dots -/

/-- The state after some dots, each with the board of its number. -/
def afterDots (boards : Nat → μ) (p : Ppu) (n : Nat) : Ppu :=
  run ((List.range n).map fun i => .dot (boards i)) p

theorem run_replicate_dot (board : μ) (n : Nat) (p : Ppu) :
    run (List.replicate n (.dot board)) p = p.afterDots (fun _ => board) n := by
  rw [afterDots, List.map_const', List.length_range]

theorem afterDots_succ (boards : Nat → μ) (p : Ppu) (n : Nat) :
    p.afterDots boards (n + 1) = (p.afterDots boards n).step (boards n) := by
  rw [afterDots, List.range_succ, List.map_append, run_append]
  rfl

/-- What every dot preserves holds after some dots. -/
theorem afterDots_invariant {P : Ppu → Prop} {boards : Nat → μ} {p : Ppu} (h : P p)
    (hstep : ∀ i q, P q → P (q.step (boards i))) (n : Nat) : P (p.afterDots boards n) := by
  refine run_invariant h fun e he q hq => ?_
  obtain ⟨i, -, rfl⟩ := List.mem_map.mp he
  exact hstep i q hq

/-! ## Parts of the state through an event -/

@[simp] theorem beam_step (p : Ppu) (board : μ) :
    (p.step board).beam = p.beam.advance p.rendering := by
  obtain ⟨_, _, _, _, _, _, _, _, _, h⟩ := p.step_shape board
  rw [h]

@[simp] theorem mask_step (p : Ppu) (board : μ) : (p.step board).mask = p.mask := by
  obtain ⟨_, _, _, _, _, _, _, _, _, h⟩ := p.step_shape board
  rw [h]

theorem ctrl_step (p : Ppu) (board : μ) : (p.step board).ctrl = p.ctrl := by
  obtain ⟨_, _, _, _, _, _, _, _, _, h⟩ := p.step_shape board
  rw [h]

theorem mask_writeRegister (p : Ppu) (board : μ) (addr : UInt16) (value : UInt8) :
    (p.writeRegister board addr value).1.mask =
      if Register.at? addr = some .mask then value else p.mask := by
  unfold writeRegister
  dsimp only
  split
  case h_2 h => rw [if_pos h]
  all_goals
    next h => exact (if_neg (by simp [h])).symm

theorem mask_replicate (board : μ) (n : Nat) (p : Ppu) :
    (run (List.replicate n (.dot board)) p).mask = p.mask :=
  run_invariant (P := fun q => q.mask = p.mask) rfl fun e he q hq => by
    rw [List.eq_of_mem_replicate he]
    exact (q.mask_step board).trans hq

theorem beam_after (p : Ppu) (e : Event μ) :
    (p.after e).beam =
      match e with
      | .dot _ => p.beam.advance p.rendering
      | .reset => p.beam.reset
      | _ => p.beam := by
  cases e with
  | dot board => exact p.beam_step board
  | read board addr =>
      obtain ⟨_, _, _, _, _, h⟩ := p.readRegister_shape board addr
      rw [after, h]
  | write board addr value =>
      obtain ⟨_, _, _, _, _, _, _, _, h⟩ := p.writeRegister_shape board addr value
      rw [after, h]
  | storePage page bytes =>
      obtain ⟨_, _, h⟩ := p.writeOamPage_shape page bytes
      rw [after, h]
  | takeNmi => rfl
  | reset => rfl

/-- Between two dots nothing is drawn: the frames, the pipelines and the sprite flags stay. -/
theorem after_shape {p : Ppu} {e : Event μ} (h : e.isDot = false) :
    ∃ beam scroll vram oam oamAddr latch ctrl mask buffer nmi fault, p.after e =
      { p with
        beam := beam
        scroll := scroll
        vram := vram
        oam := oam
        oamAddr := oamAddr
        latch := latch
        ctrl := ctrl
        mask := mask
        buffer := buffer
        nmi := nmi
        fault := fault } := by
  cases e with
  | dot board => cases h
  | read board addr =>
      obtain ⟨nmi, _, _, buffer, fault, hr⟩ := p.readRegister_shape board addr
      exact ⟨p.beam, _, p.vram, p.oam, p.oamAddr, p.latch, p.ctrl, p.mask, buffer, nmi, fault, hr⟩
  | write board addr value =>
      obtain ⟨scroll, vram, oam, oamAddr, ctrl, mask, nmi, fault, hw⟩ :=
        p.writeRegister_shape board addr value
      exact ⟨p.beam, scroll, vram, oam, oamAddr, value, ctrl, mask, p.buffer, nmi, fault, hw⟩
  | storePage page bytes =>
      obtain ⟨oam, oamAddr, hs⟩ := p.writeOamPage_shape page bytes
      exact ⟨p.beam, p.scroll, p.vram, oam, oamAddr, page, p.ctrl, p.mask, p.buffer, p.nmi, p.fault,
        hs⟩
  | takeNmi =>
      exact ⟨p.beam, p.scroll, p.vram, p.oam, p.oamAddr, p.latch, p.ctrl, p.mask, p.buffer, _,
        p.fault, rfl⟩
  | reset => exact ⟨_, _, p.vram, p.oam, 0, p.latch, 0, 0, p.buffer, _, p.fault, rfl⟩

end Nes.Ppu
