import Mathlib.Algebra.Ring.Parity
import Mathlib.Data.List.DropRight
import Mathlib.Tactic.IntervalCases
import Nes.Proofs.Ppu.ScrollBounds

/-!
# Double writes

The offsets of the picture and the address of picture memory are both written in two halves, and one
toggle tells which half comes next. It counts these writes modulo two, whichever of the two they
belong to, and a read of the status starts the count anew (`second_run`). Nothing else touches the
toggle.

Three registers write into the starting address. The two offsets and the nametable have bits of
their own, so it does not matter when the nametable is selected, and together they are all of an
address: what stood there before is gone (`Scroll.eq_of_offsets`). `scroll_latch` says this of every
state that a run leads to.
-/

set_option autoImplicit false

namespace Nes

namespace Scroll

/-! ## Words put together from bytes -/

/-- The address from which a picture starts that is scrolled by two offsets in the nametable of a
control byte. -/
def startAt (x y ctrl : UInt8) : UInt16 :=
  ((y &&& 0x07).toUInt16 <<< 12) ||| ((ctrl &&& 0x03).toUInt16 <<< 10) |||
    ((y >>> 3).toUInt16 <<< 5) ||| (x >>> 3).toUInt16

/-- The address with a high byte, of which six bits count, and a low byte. -/
def ofBytes (high low : UInt8) : UInt16 := ((high &&& 0x3F).toUInt16 <<< 8) ||| low.toUInt16

/-- Fourteen bits of an address survive in its two bytes. -/
theorem ofBytes_bytes {addr : UInt16} (h : addr.toNat < 0x4000) :
    ofBytes (addr >>> 8).toUInt8 addr.toUInt8 = addr := by
  have hshift : (addr >>> 8).toNat = addr.toNat / 256 := Word.toNat_shiftRight addr (by decide)
  have hhigh : (addr >>> 8).toUInt8 &&& (0x3F : UInt8) = (addr >>> 8).toUInt8 := by
    apply UInt8.toNat_inj.mp
    rw [Byte.toNat_and_low _ 6 rfl, UInt16.toNat_toUInt8, hshift]
    omega
  rw [ofBytes, hhigh]
  exact wordOf_bytes addr

theorem getElem_merge (mask old new : UInt16) {i : Nat} (hi : i < 16) :
    (merge mask old new).toBitVec[i] =
      if mask.toBitVec[i] then new.toBitVec[i] else old.toBitVec[i] := by
  rw [merge, UInt16.toBitVec_or, UInt16.toBitVec_and, UInt16.toBitVec_and, UInt16.toBitVec_not]
  cases h : mask.toBitVec[i] <;> simp [h]

/-- Two masks without a common bit can be written in either order. -/
theorem merge_merge_comm {m m' : UInt16} (h : m &&& m' = 0) (w a b : UInt16) :
    merge m (merge m' w b) a = merge m' (merge m w a) b := by
  have hand : m.toBitVec &&& m'.toBitVec = 0#16 := UInt16.toBitVec_inj.mpr h
  apply UInt16.toBitVec_inj.mp
  apply BitVec.eq_of_getElem_eq
  intro i hi
  have hbit : (m.toBitVec[i] && m'.toBitVec[i]) = false := by
    rw [← BitVec.getElem_and]
    simp [hand]
  simp only [getElem_merge _ _ _ hi]
  cases hm : m.toBitVec[i] with
  | false => simp
  | true =>
      have hm' : m'.toBitVec[i] = false := by simpa [hm] using hbit
      simp [hm']

theorem and_top_of_lt {w : UInt16} (h : w.toNat < 0x8000) : w &&& 0x8000 = 0 := by
  apply UInt16.toNat_inj.mp
  have hfield : (w &&& 0x8000).toNat = w.toNat / 32768 % 2 * 32768 :=
    Word.toNat_and_field w 1 15 rfl
  have hzero : (0 : UInt16).toNat = 0 := rfl
  omega

theorem getElem_top_of_lt {w : UInt16} (h : w.toNat < 0x8000) : w.toBitVec[15] = false := by
  rw [BitVec.getElem_eq_testBit_toNat]
  exact Nat.testBit_lt_two_pow (i := 15) h

/-! ## The halves of a double write -/

variable {s : Scroll}

/-- The nametable has bits of its own, so it may be selected before a half of the offsets or after
it. -/
theorem writeOffset_selectNametable (s : Scroll) (ctrl value : UInt8) :
    (s.selectNametable ctrl).writeOffset value = (s.writeOffset value).selectNametable ctrl := by
  unfold writeOffset selectNametable
  cases s.second with
  | false =>
      simp only [Bool.false_eq_true, if_false]
      rw [merge_merge_comm (m := columnMask) (by decide)]
  | true =>
      simp only [if_true]
      rw [merge_merge_comm (m := fineRowMask) (by decide),
        merge_merge_comm (m := tileRowMask) (by decide)]

/-- The fields of the offsets and of the nametable are the fifteen bits of an address. -/
theorem merge_fields_eq_startAt {t : UInt16} (ht : t.toNat < 0x8000) (x y ctrl : UInt8) :
    merge tableMask
        (merge tileRowMask
          (merge fineRowMask (merge columnMask t (x.toUInt16 >>> 3)) (y.toUInt16 <<< 12))
          (y.toUInt16 <<< 2))
        (ctrl.toUInt16 <<< 10) = startAt x y ctrl := by
  have htop := getElem_top_of_lt ht
  apply UInt16.toBitVec_inj.mp
  apply BitVec.eq_of_getElem_eq
  intro i hi
  simp only [getElem_merge _ _ _ hi]
  -- each bit below the last is in one of the four masks, and the last one was clear
  interval_cases i <;>
    simp [startAt, tableMask, tileRowMask, fineRowMask, columnMask, htop]

theorem merge_bytes_eq_ofBytes {t : UInt16} (ht : t.toNat < 0x8000) (high low : UInt8) :
    merge 0x00FF (merge 0x7F00 t ((high &&& 0x3F).toUInt16 <<< 8)) low.toUInt16 =
      ofBytes high low := by
  have htop := getElem_top_of_lt ht
  apply UInt16.toBitVec_inj.mp
  apply BitVec.eq_of_getElem_eq
  intro i hi
  simp only [getElem_merge _ _ _ hi]
  interval_cases i <;> simp [ofBytes, htop]

/-- Both offsets and the nametable replace all of the starting address. -/
theorem eq_of_offsets (h : s.Bounded) (hs : s.second = false) (x y ctrl : UInt8) :
    ((s.writeOffset x).writeOffset y).selectNametable ctrl =
      { v := s.v, t := startAt x y ctrl, fineX := x &&& 0x07, second := false } := by
  rw [← merge_fields_eq_startAt h.t_lt x y ctrl]
  unfold writeOffset selectNametable
  simp [hs]

example :
    ((({} : Scroll).writeOffset 0x7D).writeOffset 0x5E).selectNametable 0x03 =
      { t := 0x6D6F, fineX := 5 } := by decide

/-- Both bytes of an address replace the starting address and the current one. -/
theorem eq_of_address (h : s.Bounded) (hs : s.second = false) (high low : UInt8) :
    (s.writeAddress high).writeAddress low =
      { v := ofBytes high low, t := ofBytes high low, fineX := s.fineX, second := false } := by
  rw [← merge_bytes_eq_ofBytes h.t_lt high low]
  unfold writeAddress
  simp [hs]

end Scroll

namespace Ppu

/-! ## The toggle -/

namespace Event

variable {μ : Type}

/-- Whether an event reads the status. -/
def readsStatus : Event μ → Bool
  | read _ addr => decide (addr = 0x2002)
  | _ => false

/-- Whether an event writes a half of the offsets or of the address. -/
def writesHalf : Event μ → Bool
  | write _ addr _ => decide (addr = 0x2005 ∨ addr = 0x2006)
  | _ => false

/-- Number of halves that have been written since the status was last read, or since the start. -/
def halvesSinceStatus (es : List (Event μ)) : Nat :=
  (es.rtakeWhile fun e => !e.readsStatus).countP writesHalf

theorem halvesSinceStatus_concat (es : List (Event μ)) (e : Event μ) :
    halvesSinceStatus (es ++ [e]) =
      if e.readsStatus then 0
      else if e.writesHalf then halvesSinceStatus es + 1
      else halvesSinceStatus es := by
  unfold halvesSinceStatus
  rw [List.rtakeWhile_concat]
  cases e.readsStatus with
  | true => rfl
  | false =>
      simp only [Bool.not_false, if_true, Bool.false_eq_true, if_false]
      rw [List.countP_append, List.countP_singleton]
      split <;> rfl

end Event

variable {μ : Type} [Board μ]

theorem second_readRegister (p : Ppu) (board : μ) (addr : UInt16) :
    (p.readRegister board addr).2.scroll.second =
      if Register.at? addr = some .status then false else p.scroll.second := by
  unfold readRegister
  split
  case h_1 h =>
    rw [if_pos h]
    rfl
  case h_2 h => exact (if_neg (by simp [h])).symm
  case h_3 h =>
    rw [if_neg (by simp [h])]
    unfold readData
    dsimp only
    split <;> rfl
  case h_4 h _ _ => exact (if_neg h).symm

theorem second_writeRegister (p : Ppu) (board : μ) (addr : UInt16) (value : UInt8) :
    (p.writeRegister board addr value).1.scroll.second =
      if Register.at? addr = some .scroll ∨ Register.at? addr = some .address then !p.scroll.second
      else p.scroll.second := by
  have hoffset : (p.scroll.writeOffset value).second = !p.scroll.second := by
    unfold Scroll.writeOffset
    cases p.scroll.second <;> rfl
  have haddress : (p.scroll.writeAddress value).second = !p.scroll.second := by
    unfold Scroll.writeAddress
    cases p.scroll.second <;> rfl
  unfold writeRegister
  dsimp only
  split
  case h_5 h =>
    rw [if_pos (.inl h)]
    exact hoffset
  case h_6 h =>
    rw [if_pos (.inr h)]
    exact haddress
  all_goals
    next h => exact (if_neg (by simp [h])).symm

/-- The toggle through an event. -/
theorem second_after (p : Ppu) (e : Event μ) :
    (p.after e).scroll.second =
      if e.readsStatus then false
      else if e.writesHalf then !p.scroll.second
      else p.scroll.second := by
  cases e with
  | dot board =>
      obtain ⟨_, _, _, _, _, _, _, _, _, h⟩ := p.step_shape board
      rw [after, h]
      rfl
  | read board addr =>
      rw [after, second_readRegister]
      simp [Event.readsStatus, Event.writesHalf, Register.at?_eq_some_iff, Register.location]
  | write board addr value =>
      rw [after, second_writeRegister]
      simp [Event.readsStatus, Event.writesHalf, Register.at?_eq_some_iff, Register.location]
  | storePage page bytes =>
      obtain ⟨_, _, h⟩ := p.writeOamPage_shape page bytes
      rw [after, h]
      rfl
  | takeNmi => rfl
  | reset => rfl

/-- The toggle at the end of a run that started with it clear: the halves written since the status
was last read, modulo two. -/
theorem second_run {p : Ppu} (hp : p.scroll.second = false) (es : List (Event μ)) :
    (run es p).scroll.second = true ↔ Odd (Event.halvesSinceStatus es) := by
  -- from the end, since a read of the status makes what was before it irrelevant
  induction es using List.reverseRecOn with
  | nil => simp [hp, Event.halvesSinceStatus]
  | append_singleton es e ih =>
      rw [run_concat, second_after, Event.halvesSinceStatus_concat]
      cases e.readsStatus with
      | true => simp
      | false =>
          cases e.writesHalf with
          | true => simp [Nat.odd_add_one, ← ih]
          | false => simpa using ih

/-! ## Writes one after the other -/

/-- Both offsets are written, and the control before them, between them or after them. -/
inductive SetsScroll (x y ctrl : UInt8) : List (Event μ) → Prop
  | before (b b' b'' : μ) :
      SetsScroll x y ctrl [.write b 0x2000 ctrl, .write b' 0x2005 x, .write b'' 0x2005 y]
  | between (b b' b'' : μ) :
      SetsScroll x y ctrl [.write b 0x2005 x, .write b' 0x2000 ctrl, .write b'' 0x2005 y]
  | after (b b' b'' : μ) :
      SetsScroll x y ctrl [.write b 0x2005 x, .write b' 0x2005 y, .write b'' 0x2000 ctrl]

variable {p : Ppu}

theorem scroll_of_setsScroll (h : p.scroll.Bounded) (hs : p.scroll.second = false)
    {x y ctrl : UInt8} {ws : List (Event μ)} (hw : SetsScroll x y ctrl ws) :
    (run ws p).scroll =
      { v := p.scroll.v, t := Scroll.startAt x y ctrl, fineX := x &&& 0x07, second := false } := by
  rw [← Scroll.eq_of_offsets h hs]
  -- the control moves behind the offsets, one of them after the other
  cases hw with
  | before =>
      calc ((p.scroll.selectNametable ctrl).writeOffset x).writeOffset y
          = ((p.scroll.writeOffset x).selectNametable ctrl).writeOffset y := by
            rw [Scroll.writeOffset_selectNametable]
        _ = ((p.scroll.writeOffset x).writeOffset y).selectNametable ctrl := by
            rw [Scroll.writeOffset_selectNametable]
  | between =>
      show ((p.scroll.writeOffset x).selectNametable ctrl).writeOffset y = _
      rw [Scroll.writeOffset_selectNametable]
  | after => rfl

theorem scroll_of_address (h : p.scroll.Bounded) (hs : p.scroll.second = false) (b b' : μ)
    (high low : UInt8) :
    (run [.write b 0x2006 high, .write b' 0x2006 low] p).scroll =
      { v := Scroll.ofBytes high low, t := Scroll.ofBytes high low, fineX := p.scroll.fineX
        second := false } :=
  Scroll.eq_of_address h hs high low

/-- **The scroll registers after any run.** The toggle is set if an odd number of halves has been
written since the status was last read. If it is clear, both offsets and the control make the
starting address and the horizontal offset, in whichever order the control comes, and two bytes make
the current address and the starting one. Neither address ever has its top bit set. -/
theorem scroll_latch (es : List (Event μ)) :
    ((run es powerOn).scroll.second = true ↔ Odd (Event.halvesSinceStatus es)) ∧
      ((run es powerOn).scroll.second = false →
        (∀ (x y ctrl : UInt8) (ws : List (Event μ)), SetsScroll x y ctrl ws →
          (run (es ++ ws) powerOn).scroll =
            { v := (run es powerOn).scroll.v, t := Scroll.startAt x y ctrl, fineX := x &&& 0x07
              second := false }) ∧
        ∀ (b b' : μ) (high low : UInt8),
          (run (es ++ [.write b 0x2006 high, .write b' 0x2006 low]) powerOn).scroll =
            { v := Scroll.ofBytes high low, t := Scroll.ofBytes high low
              fineX := (run es powerOn).scroll.fineX, second := false }) ∧
      (run es powerOn).scroll.v &&& 0x8000 = 0 ∧ (run es powerOn).scroll.t &&& 0x8000 = 0 := by
  have hbounded := bounded_run es
  refine ⟨second_run rfl es, ?_, Scroll.and_top_of_lt hbounded.v_lt,
    Scroll.and_top_of_lt hbounded.t_lt⟩
  intro hs
  constructor
  · intro x y ctrl ws hw
    rw [run_append]
    exact scroll_of_setsScroll hbounded hs hw
  · intro b b' high low
    rw [run_append]
    exact scroll_of_address hbounded hs b b' high low

end Ppu

end Nes
