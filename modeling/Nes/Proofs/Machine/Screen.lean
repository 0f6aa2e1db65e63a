import Nes.Proofs.Machine.Jam
import Nes.Proofs.Ppu.FrontFrame

/-!
# The screen of a console

What a console shows is the frame that has come to the front last. A pixel of it is as old as the
last dot that drew there (`Console.front_pixel_of_swap`). A program that never switches rendering on
draws nothing at all, and the screen stays black even where the backdrop has another colour
(`Console.front_not_fresh_jamProgram`).
-/

set_option autoImplicit false

namespace Nes

namespace Ppu

variable {μ : Type} [Board μ]

/-- Every pixel that comes to the front, but for the first time, has been composed in the frame that
has just ended: drawn, or the backdrop if nothing was rendered. -/
def FrontIsFresh (es : List (Event μ)) : Prop :=
  ∀ f n, Swaps es (f + 1) n → ∀ x y, ∃ j, j < n ∧ Visits es (f + 1) x y j ∧
    (stateAt es (n + 1)).front.get x y =
      if (stateAt es j).rendering then (stateAt es j).drawn x else (stateAt es j).colour 0

/-! ## Nothing is rendered -/

/-- Rendering is switched off, nothing has been drawn, and the memory of the picture unit is as it
was at power-on. -/
structure Dark (p : Ppu) : Prop where
  mask : p.mask = 0
  vram : p.vram = powerOn.vram
  front : p.front = .black
  back : p.back = .black

theorem Dark.not_rendering {p : Ppu} (h : Dark p) : p.rendering = false := by
  rw [rendering, h.mask]
  decide

theorem Dark.step {p : Ppu} (h : Dark p) (board : μ) : Dark (p.step board) := by
  have hmask := p.mask_step board
  have hvram : (p.step board).vram = p.vram := by
    obtain ⟨_, _, _, _, _, _, _, _, _, hs⟩ := p.step_shape board
    rw [hs]
  have hframes : (p.step board).front = .black ∧ (p.step board).back = .black := by
    cases hstarts : (p.beam.advance p.rendering).startsVblank with
    | true =>
        obtain ⟨hfront, hback⟩ := frames_step_of_startsVblank board hstarts
        exact ⟨hfront.trans h.back, hback.trans h.front⟩
    | false =>
        obtain ⟨hfront, hback⟩ := frames_step_of_not_startsVblank board hstarts
        rw [h.not_rendering, if_neg Bool.false_ne_true] at hback
        exact ⟨hfront.trans h.front, hback.trans h.back⟩
  exact ⟨hmask.trans h.mask, hvram.trans h.vram, hframes.1, hframes.2⟩

theorem dark_powerOn : Dark powerOn := ⟨rfl, rfl, rfl, rfl⟩

/-- As long as the CPU stays away, nothing is drawn. -/
theorem dark_stateAt {es : List (Event μ)} (hes : ∀ e ∈ es, ¬ e.isAccess ∧ e ≠ .reset) (n : Nat) :
    Dark (stateAt es n) :=
  run_invariant dark_powerOn fun e he p hp => by
    obtain ⟨haccess, hreset⟩ := hes e (List.mem_of_mem_take he)
    cases e with
    | dot board => exact hp.step board
    | takeNmi => exact ⟨hp.mask, hp.vram, hp.front, hp.back⟩
    | read | write | storePage => exact absurd rfl haccess
    | reset => exact absurd rfl hreset

/-- What comes to the front then has not been composed. -/
theorem not_frontIsFresh {es : List (Event μ)} (hes : ∀ e ∈ es, ¬ e.isAccess ∧ e ≠ .reset)
    {f n : Nat} (h : Swaps es (f + 1) n) : ¬ FrontIsFresh es := by
  intro hfresh
  obtain ⟨j, -, -, hpixel⟩ := hfresh f n h ⟨0, by decide⟩ ⟨0, by decide⟩
  have hj := dark_stateAt hes j
  -- black has come to the front, and the backdrop is the first colour
  rw [(dark_stateAt hes (n + 1)).front, Frame.get_black, hj.not_rendering,
    if_neg Bool.false_ne_true, colour, readPalette, hj.vram] at hpixel
  exact absurd hpixel (by decide)

end Ppu

/-! ## A jammed CPU stays away from the registers -/

/-- Reading memory does nothing to the picture unit. -/
theorem CpuMemory.readEvents_of_memory {c : CpuMemory UxRom} {addr : UInt16}
    (h : addr < 0x2000 ∨ 0x6000 ≤ addr) : c.readEvents addr = [] := by
  unfold readEvents
  by_cases hlow : addr < 0x2000
  · rw [if_pos hlow]
  · have hhigh : ¬ addr < 0x4000 :=
      UInt16.not_lt.mpr (UInt16.le_trans (by decide) (h.resolve_left hlow))
    rw [if_neg hlow, if_neg hhigh]

namespace Machine

/-- The only access of a step is the one that fetches the instruction. -/
theorem Jammed.cpuEvents {m : Console} (h : m.Jammed) : m.cpuEvents = [] := by
  obtain ⟨_, hj⟩ := m.traceInstruction_shape
  -- the CPU on the bus that lists what is done to the picture unit
  let s : Wired (Traced UxRom) := ⟨m.cpu, ⟨m.traceInstruction.memory, []⟩⟩
  have hmemory : m.traceInstruction.memory.read m.cpu.pc =
      (byteAt m.ram m.board m.cpu.pc, m.traceInstruction.memory) := by
    rw [hj]
    exact CpuMemory.read_eq_byteAt h.place
  have hread : Bus.read s.bus s.cpu.pc = (byteAt m.ram m.board m.cpu.pc, s.bus) := by
    show ((m.traceInstruction.memory.read m.cpu.pc).1,
      (⟨(m.traceInstruction.memory.read m.cpu.pc).2,
        [] ++ m.traceInstruction.memory.readEvents m.cpu.pc⟩ : Traced UxRom)) = _
    rw [hmemory, CpuMemory.readEvents_of_memory h.place]
    rfl
  have hdma : Bus.takeOamDma s.bus = (false, s.bus) := rfl
  show s.step.2.bus.events = []
  rw [(Wired.step_of_not_stalled h.stall).2,
    Wired.runInstruction_of_kil h.interrupt hread hdma h.opcode]
  rfl

theorem quiet_dotEvents {μ : Type} [Board μ] (n : Nat) (m : Machine μ) :
    ∀ e ∈ dotEvents n m, ¬ e.isAccess ∧ e ≠ .reset := by
  induction n generalizing m with
  | zero => simp [dotEvents]
  | succ n ih =>
      intro e he
      simp only [dotEvents, List.mem_cons] at he
      rcases he with rfl | rfl | he
      · exact ⟨Bool.false_ne_true, fun h => by cases h⟩
      · exact ⟨Bool.false_ne_true, fun h => by cases h⟩
      · exact ih m.dot e he

/-- With interrupts switched off, only dots happen. -/
theorem Jammed.quiet_events {m : Console} (h : m.Jammed) (hs : Silent m.ppu) (n : Nat) :
    ∀ e ∈ m.events n, ¬ e.isAccess ∧ e ≠ .reset := by
  induction n generalizing m with
  | zero => simp [events]
  | succ n ih =>
      obtain ⟨-, hjammed, hsilent⟩ := h.step_of_silent hs
      intro e he
      rw [events, stepEvents, h.cpuEvents, List.nil_append, List.mem_append] at he
      rcases he with he | he
      · exact quiet_dotEvents _ _ e he
      · exact ih hjammed hsilent e he

/-- Every step takes a cycle at least. -/
theorem le_dots_events {μ : Type} [Board μ] (n : Nat) (m : Machine μ) :
    3 * n ≤ Ppu.Event.dots (m.events n) := by
  induction n generalizing m with
  | zero => exact Nat.zero_le _
  | succ n ih =>
      have hrest := ih m.step.2
      have hfirst := m.one_le_fst_step
      rw [events, Ppu.Event.dots_append, dots_stepEvents, dotsPerCycle]
      omega

end Machine

namespace Console

open Machine Ppu

/-- **Where the pixels of the screen come from.** The picture unit of a console goes through the run
of the console's events. Between two swaps of its frames every pixel is visited by one dot. If
something is rendered at this dot, the pixel that comes to the front is the one that is drawn there.
Otherwise it is the one that was in front before the swap before. -/
theorem front_pixel_of_swap {c : Cartridge} {journal : Journal} {m : Console}
    (hm : Console.ofCartridge c journal = .ok m) (k : Nat) :
    let es := m.events k
    (m.afterSteps k).ppu = run es powerOn ∧
      ∀ f n, Swaps es (f + 1) n → ∀ x y, ∃ i j,
        Swaps es f i ∧ i < j ∧ j < n ∧ Visits es (f + 1) x y j ∧
          (∀ l, Visits es (f + 1) x y l → l = j) ∧
          (stateAt es (n + 1)).front.get x y =
            if (stateAt es j).rendering then (stateAt es j).drawn x
            else (stateAt es i).front.get x y := by
  refine ⟨?_, fun f n h => get_front_of_swap (reset_notMem_events k m) h⟩
  rw [← Console.ppu_ofCartridge hm]
  exact ppu_steps k 0 m

/-! ## A screen that stays black -/

/-- The jammed console swaps its frames for the second time. -/
theorem exists_swap_jamProgram {k : Nat} (hk : 29782 ≤ k) :
    ∃ m, Console.ofCartridge (.ofBank jamProgram #[]) {} = .ok m ∧
      (∀ e ∈ m.events k, ¬ e.isAccess ∧ e ≠ .reset) ∧ ∃ n, Swaps (m.events k) 1 n := by
  obtain ⟨m, hm, hjammed, hppu, -, -⟩ := exists_jammed_jamProgram
  have hsilent : Silent m.ppu := by
    rw [hppu]
    exact ⟨rfl, rfl⟩
  have hdots := le_dots_events k m
  exact ⟨m, hm, hjammed.quiet_events hsilent k,
    exists_swap_of_dots (reset_notMem_events k m) (by omega)⟩

/-- Nothing is rendered, so every pixel that comes to the front with the second swap has been in
front before the first. -/
theorem front_pixel_of_swap_jamProgram :
    ∃ m n, Console.ofCartridge (.ofBank jamProgram #[]) {} = .ok m ∧
      Swaps (m.events 29782) 1 n ∧
      ∀ x y, ∃ i, Swaps (m.events 29782) 0 i ∧ i < n ∧
        (stateAt (m.events 29782) (n + 1)).front.get x y =
          (stateAt (m.events 29782) i).front.get x y := by
  obtain ⟨m, hm, hquiet, n, hn⟩ := exists_swap_jamProgram (Nat.le_refl 29782)
  refine ⟨m, n, hm, hn, fun x y => ?_⟩
  obtain ⟨i, j, hi, hij, hjn, -, -, hpixel⟩ := (front_pixel_of_swap hm 29782).2 0 n hn x y
  rw [(dark_stateAt hquiet j).not_rendering, if_neg Bool.false_ne_true] at hpixel
  exact ⟨i, hi, Nat.lt_trans hij hjn, hpixel⟩

/-- **The screen is not fresh.** The console renders nothing. Its backdrop is grey, and what comes to
the front with the second swap is black. -/
theorem front_not_fresh_jamProgram :
    ∃ m, Console.ofCartridge (.ofBank jamProgram #[]) {} = .ok m ∧
      ¬ FrontIsFresh (m.events 29782) := by
  obtain ⟨m, hm, hquiet, n, hn⟩ := exists_swap_jamProgram (Nat.le_refl 29782)
  exact ⟨m, hm, not_frontIsFresh hquiet hn⟩

end Console

end Nes
