import Mathlib.Logic.Function.Iterate
import Nes.Proofs.Ppu.BackgroundPipeline
import Nes.Proofs.Ppu.SpriteRow

/-!
# Rows of sprites, digit by digit

A row of a sprite is decoded from two bytes that the control register and the entry select. In
numbers, `Ppu.spritePlane` says which bytes these are, and `RowWord` which digits they give.

The rows of sprites and of tiles in the background are the same words. Taken apart bit by bit
(`Unpacking`), a row of the background loses its pixels on the left; a sprite does so too unless it
is flipped, and then it loses them on the right. Either way the pixels that are lost come to stand
in the word in the order in which they go, one digit each, and what eight steps have made is the
word that is decoded at once.
-/

set_option autoImplicit false

namespace Nes

/-! ## Words of eight digits -/

namespace Pattern

/-- A digit of a word, counted from the highest one. -/
def digitAt (word : UInt32) (k : Nat) : Nat := word.toNat / 2 ^ (4 * (7 - k)) % 16

theorem digitAt_eq (word : UInt32) {k : Nat} (hk : k < 8) :
    digitAt word k = (digit word (UInt32.ofNat k)).toNat :=
  (toNat_digit word hk).symm

/-- Words are made of their digits. -/
theorem ext_digitAt {word word' : UInt32} (h : ∀ k < 8, digitAt word k = digitAt word' k) :
    word = word' := by
  apply UInt32.toNat_inj.mp
  apply Nat.eq_of_testBit_eq
  intro i
  by_cases hi : i < 32
  · have hbit : ∀ w : UInt32, w.toNat.testBit i = (digitAt w (7 - i / 4)).testBit (i % 4) := by
      intro w
      have hplace : 4 * (7 - (7 - i / 4)) = 4 * (i / 4) := by omega
      have hin : i % 4 < 4 := Nat.mod_lt _ (by decide)
      have hsum : i % 4 + 4 * (i / 4) = i := Nat.mod_add_div i 4
      rw [digitAt, hplace]
      show _ = (w.toNat / 2 ^ (4 * (i / 4)) % 2 ^ 4).testBit (i % 4)
      rw [Nat.testBit_mod_two_pow, Nat.testBit_div_two_pow, hsum, decide_eq_true hin,
        Bool.true_and]
    rw [hbit, hbit, h _ (by omega)]
  · have hbig : ∀ w : UInt32, w.toNat.testBit i = false := fun w =>
      Nat.testBit_lt_two_pow (Nat.lt_of_lt_of_le w.toNat_lt
        (Nat.pow_le_pow_right (by decide) (Nat.le_of_not_lt hi)))
    rw [hbig, hbig]

/-- A digit that joins a word from below moves the others up. -/
theorem digitAt_append (word : UInt32) {d : UInt8} (hd : d.toNat < 16) :
    digitAt (word <<< 4 ||| d.toUInt32) 7 = d.toNat ∧
      ∀ k < 7, digitAt (word <<< 4 ||| d.toUInt32) k = digitAt word (k + 1) := by
  have hshift : (word <<< 4).toNat = (word.toNat % 2 ^ 28) <<< 4 := by
    have hword := word.toNat_lt
    rw [UInt32.toNat_shiftLeft, Nat.shiftLeft_eq, Nat.shiftLeft_eq]
    show word.toNat * 2 ^ 4 % 2 ^ 32 = _
    omega
  have hjoin : (word <<< 4 ||| d.toUInt32).toNat = word.toNat % 2 ^ 28 * 16 + d.toNat := by
    rw [UInt32.toNat_or, hshift, UInt8.toNat_toUInt32,
      ← Nat.shiftLeft_add_eq_or_of_lt (i := 4) hd, Nat.shiftLeft_eq]
  unfold digitAt
  rw [hjoin]
  refine ⟨by omega, fun k hk => ?_⟩
  obtain ⟨j, hj⟩ : ∃ j, 6 - k = j := ⟨_, rfl⟩
  have hplace : 2 ^ (4 * (7 - k)) = 16 * 2 ^ (4 * j) := by
    rw [← Nat.pow_add 2 4]
    congr 1
    omega
  have hplace' : 4 * (7 - (k + 1)) = 4 * j := by omega
  have hsplit : 2 ^ 28 = 2 ^ (4 * j) * (16 * 2 ^ (4 * (6 - j))) := by
    rw [← Nat.pow_add 2 4, ← Nat.pow_add]
    congr 1
    omega
  have hlow : (word.toNat % 2 ^ 28 * 16 + d.toNat) / 16 = word.toNat % 2 ^ 28 := by omega
  rw [hplace, hplace', ← Nat.div_div_eq_div_mul, hlow, hsplit, Nat.mod_mul_right_div_self,
    Nat.mod_mul_right_mod]

/-- One word shows the pixels of another from right to left. -/
def Mirrored (word word' : UInt32) : Prop := ∀ k < 8, digitAt word' k = digitAt word (7 - k)

end Pattern

/-! ## Rows bit by bit -/

/-- A row that is being taken apart: what is left of its two planes, and the digits so far. -/
structure Unpacking where
  low : UInt8
  high : UInt8
  word : UInt32 := 0

namespace Unpacking

/-- Takes the pixel on the left. -/
def takeLeft (palette : UInt8) (u : Unpacking) : Unpacking :=
  let low : UInt8 := (u.low &&& 0x80) >>> 7
  let high : UInt8 := (u.high &&& 0x80) >>> 6
  let pixel : UInt8 := palette ||| low ||| high
  { low := u.low <<< 1, high := u.high <<< 1, word := (u.word <<< 4) ||| pixel.toUInt32 }

/-- Takes the pixel on the right. -/
def takeRight (palette : UInt8) (u : Unpacking) : Unpacking :=
  let low : UInt8 := u.low &&& 1
  let high : UInt8 := (u.high &&& 1) <<< 1
  let pixel : UInt8 := palette ||| low ||| high
  { low := u.low >>> 1, high := u.high >>> 1, word := (u.word <<< 4) ||| pixel.toUInt32 }

/-- Takes a pixel of a sprite, from the right if it is flipped. -/
def take (attributes : UInt8) (u : Unpacking) : Unpacking :=
  let palette : UInt8 := (attributes &&& 3) <<< 2
  if attributes &&& 0x40 ≠ 0 then u.takeRight palette else u.takeLeft palette

/-- Where a plane has the pixel of a row with a number, which counts from the left or from the
right. -/
def place (left : Bool) (i : Nat) : Nat := if left then 7 - i else i

/-- What is left after some pixels have been taken, and the digits they have become. -/
structure Taken (left : Bool) (group : UInt8) (planes : UInt8 × UInt8) (n : Nat) (u : Unpacking) :
    Prop where
  low : ∀ i, n + i < 8 →
    u.low.toNat.testBit (place left i) = planes.1.toNat.testBit (place left (n + i))
  high : ∀ i, n + i < 8 →
    u.high.toNat.testBit (place left i) = planes.2.toNat.testBit (place left (n + i))
  digits : ∀ i < n, Pattern.digitAt u.word (8 - n + i) =
    4 * (group.toNat % 4) + Pattern.bitPair planes.1 planes.2 (place left i)

variable {left : Bool} {group : UInt8} {planes : UInt8 × UInt8} {n : Nat} {u : Unpacking}

/-- The bits at the ends of two bytes, over all bytes. -/
theorem ends_table : ∀ b : Fin 256,
    ((UInt8.ofNat b &&& 0x80) >>> 7 = UInt8.ofNat (b.val.testBit 7).toNat ∧
      (UInt8.ofNat b &&& 0x80) >>> 6 = UInt8.ofNat (2 * (b.val.testBit 7).toNat)) ∧
    UInt8.ofNat b &&& 1 = UInt8.ofNat (b.val.testBit 0).toNat ∧
      (UInt8.ofNat b &&& 1) <<< 1 = UInt8.ofNat (2 * (b.val.testBit 0).toNat) := by
  decide +kernel

theorem testBit_shift_table : ∀ b : Fin 256, ∀ k : Fin 7,
    (UInt8.ofNat b <<< 1).toNat.testBit (k + 1) = b.val.testBit k ∧
      (UInt8.ofNat b >>> 1).toNat.testBit k = b.val.testBit (k + 1) := by
  decide +kernel

/-- The palette group and two bits of the planes make a pixel. -/
theorem toNat_pixel (group : UInt8) (low high : Bool) :
    ((group &&& 3) <<< 2 ||| UInt8.ofNat low.toNat ||| UInt8.ofNat (2 * high.toNat)).toNat =
      4 * (group.toNat % 4) + (low.toNat + 2 * high.toNat) := by
  have htable : ∀ b : Fin 256, (UInt8.ofNat b &&& 3) <<< 2 = UInt8.ofNat (4 * (b.val % 4)) := by
    decide +kernel
  have hgroup := htable ⟨group.toNat, group.toNat_lt⟩
  rw [UInt8.ofNat_toNat] at hgroup
  rw [hgroup]
  exact Pattern.toNat_join ⟨group.toNat % 4, Nat.mod_lt _ (by decide)⟩ low high

/-- A pixel taken on one side. -/
def takeFrom (left : Bool) (palette : UInt8) (u : Unpacking) : Unpacking :=
  if left then u.takeLeft palette else u.takeRight palette

/-- It is the next one on its side, and joins the word as its last digit. -/
theorem takeFrom_spec (left : Bool) (group : UInt8) (u : Unpacking) :
    let u' := u.takeFrom left ((group &&& 3) <<< 2)
    (∀ i < 7, u'.low.toNat.testBit (place left i) = u.low.toNat.testBit (place left (i + 1)) ∧
      u'.high.toNat.testBit (place left i) = u.high.toNat.testBit (place left (i + 1))) ∧
    ∃ d : UInt8, u'.word = u.word <<< 4 ||| d.toUInt32 ∧
      d.toNat = 4 * (group.toNat % 4) + Pattern.bitPair u.low u.high (place left 0) := by
  have hends : ∀ b : UInt8, _ := fun b => ends_table ⟨b.toNat, b.toNat_lt⟩
  have hshift : ∀ (b : UInt8) (k : Nat) (hk : k < 7), _ := fun b k hk =>
    testBit_shift_table ⟨b.toNat, b.toNat_lt⟩ ⟨k, hk⟩
  simp only [UInt8.ofNat_toNat] at hends hshift
  intro u'
  cases left with
  | true =>
      refine ⟨fun i hi => ?_, _, rfl, ?_⟩
      · have hplace : 7 - i = 7 - (i + 1) + 1 := by omega
        have hnext : 7 - (i + 1) < 7 := by omega
        show (u.low <<< 1).toNat.testBit (7 - i) = u.low.toNat.testBit (7 - (i + 1)) ∧
          (u.high <<< 1).toNat.testBit (7 - i) = u.high.toNat.testBit (7 - (i + 1))
        rw [hplace]
        exact ⟨(hshift _ _ hnext).1, (hshift _ _ hnext).1⟩
      · rw [(hends u.low).1.1, (hends u.high).1.2]
        exact toNat_pixel group _ _
  | false =>
      refine ⟨fun i hi => ⟨(hshift _ i hi).2, (hshift _ i hi).2⟩, _, rfl, ?_⟩
      rw [(hends u.low).2.1, (hends u.high).2.2]
      exact toNat_pixel group _ _

theorem Taken.takeFrom (h : Taken left group planes n u) (hn : n < 8) :
    Taken left group planes (n + 1) (u.takeFrom left ((group &&& 3) <<< 2)) := by
  obtain ⟨hplanes, d, hword, hd⟩ := takeFrom_spec left group u
  have hpair : Pattern.bitPair u.low u.high (place left 0) =
      Pattern.bitPair planes.1 planes.2 (place left n) := by
    rw [Pattern.bitPair, h.low 0 hn, h.high 0 hn, Nat.add_zero, Pattern.bitPair]
  have hsmall : d.toNat < 16 := by
    have hlow := Bool.toNat_lt (u.low.toNat.testBit (place left 0))
    have hhigh := Bool.toNat_lt (u.high.toNat.testBit (place left 0))
    rw [hd, Pattern.bitPair]
    omega
  obtain ⟨hlast, hothers⟩ := Pattern.digitAt_append u.word hsmall
  constructor
  case low =>
    intro i hi
    rw [(hplanes i (by omega)).1, h.low (i + 1) (by omega), Nat.add_right_comm, Nat.add_assoc]
  case high =>
    intro i hi
    rw [(hplanes i (by omega)).2, h.high (i + 1) (by omega), Nat.add_right_comm, Nat.add_assoc]
  case digits =>
    intro i hi
    rw [hword]
    rcases Nat.lt_succ_iff_lt_or_eq.mp hi with hbefore | rfl
    · have hplace : 8 - (n + 1) + i + 1 = 8 - n + i := by omega
      rw [hothers _ (by omega), hplace, h.digits i hbefore]
    · have hplace : 8 - (i + 1) + i = 7 := by omega
      rw [hplace, hlast, hd, hpair]

/-- Up to eight pixels can be taken. -/
theorem taken_iterate (left : Bool) (group low high : UInt8) (hn : n ≤ 8) :
    Taken left group (low, high) n
      ((Unpacking.takeFrom left ((group &&& 3) <<< 2))^[n] { low, high }) := by
  induction n with
  | zero =>
      constructor
      case low | high =>
        intro i _
        rw [Nat.zero_add]
        rfl
      case digits => exact fun i hi => absurd hi (Nat.not_lt_zero i)
  | succ n ih =>
      rw [Function.iterate_succ_apply']
      exact (ih (Nat.le_of_succ_le hn)).takeFrom hn

/-- Eight pixels make a word. -/
theorem digitAt_iterate (left : Bool) (group low high : UInt8) {k : Nat} (hk : k < 8) :
    Pattern.digitAt
        ((Unpacking.takeFrom left ((group &&& 3) <<< 2))^[8] { low, high }).word k =
      4 * (group.toNat % 4) + Pattern.bitPair low high (place left k) := by
  have htaken := (taken_iterate left group low high (Nat.le_refl 8)).digits k hk
  rwa [Nat.sub_self, Nat.zero_add] at htaken

end Unpacking

/-! ## The two decoders -/

namespace Sprite

theorem digitAt_decode (attributes low high : UInt8) {k : Nat} (hk : k < 8) :
    Pattern.digitAt (decode attributes low high) k =
      4 * (attributes.toNat % 4) + Pattern.bitPair low high
        (if attributes.toNat.testBit 6 then k else 7 - k) := by
  rw [Pattern.digitAt_eq _ hk, digit_decode attributes low high hk]

/-- A sprite loses its pixels on the left unless it is flipped. -/
theorem take_eq_takeFrom (attributes : UInt8) :
    Unpacking.take attributes =
      Unpacking.takeFrom (!attributes.toNat.testBit 6) ((attributes &&& 3) <<< 2) := by
  have hflip := Byte.and_ne_zero_iff attributes (m := 0x40) (k := 6) rfl
  funext u
  unfold Unpacking.take Unpacking.takeFrom
  dsimp only
  cases hbit : attributes.toNat.testBit 6 with
  | true =>
      rw [if_pos (hflip.mpr hbit)]
      rfl
  | false =>
      rw [if_neg (fun h => Bool.false_ne_true (hbit.symm.trans (hflip.mp h)))]
      rfl

/-- **The row of a sprite, bit by bit.** -/
theorem decode_eq_unpacked (attributes low high : UInt8) :
    decode attributes low high =
      ((Unpacking.take attributes)^[8] { low, high }).word := by
  apply Pattern.ext_digitAt
  intro k hk
  rw [digitAt_decode attributes low high hk, take_eq_takeFrom,
    Unpacking.digitAt_iterate _ _ _ _ hk]
  cases attributes.toNat.testBit 6 <;> rfl

/-- Without a flip it is the row of a tile. -/
theorem decode_eq_row {attributes : UInt8} (h : attributes.toNat.testBit 6 = false)
    (low high : UInt8) :
    decode attributes low high = Pattern.row ((attributes &&& 3) <<< 2) low high := by
  have hflip := Byte.and_ne_zero_iff attributes (m := 0x40) (k := 6) rfl
  exact if_neg fun hset => Bool.false_ne_true (h.symm.trans (hflip.mp hset))

/-- A flip turns the pixels round. -/
theorem mirrored_decode (a low high : UInt8) :
    Pattern.Mirrored (decode (a &&& ~~~0x40) low high) (decode (a ||| 0x40) low high) := by
  have hset : (a ||| 0x40).toNat.testBit 6 = true := Byte.testBit_set a rfl
  have hclear : (a &&& ~~~0x40).toNat.testBit 6 = false := Byte.testBit_clear a rfl
  have hgroup : (a ||| 0x40).toNat % 4 = (a &&& ~~~0x40).toNat % 4 := by
    have hlow : ∀ b : UInt8, (b &&& 3).toNat = b.toNat % 4 := fun b => Byte.toNat_and_low b 2 rfl
    rw [← hlow, ← hlow, Byte.or_and_of_disjoint a (by decide),
      Byte.and_not_and_of_disjoint a (by decide)]
  intro k hk
  have hplace : 7 - (7 - k) = k := by omega
  rw [digitAt_decode _ _ _ hk, digitAt_decode _ _ _ (by omega), hset, hclear, hgroup,
    if_pos rfl, if_neg Bool.false_ne_true, hplace]

end Sprite

/-- Eight shifts use a byte up. -/
theorem Byte.shiftLeft_eight : ∀ b : Fin 256,
    (fun x : UInt8 => x <<< 1)^[8] (UInt8.ofNat b) = 0 := by
  decide +kernel

/-- The row of a tile, bit by bit. -/
theorem Pattern.row_eq_unpacked (group low high : UInt8) :
    row ((group &&& 3) <<< 2) low high =
      ((Unpacking.takeLeft ((group &&& 3) <<< 2))^[8] { low, high }).word := by
  apply ext_digitAt
  intro k hk
  rw [digitAt_eq _ hk, digit_row group low high hk]
  exact (Unpacking.digitAt_iterate true group low high hk).symm

/-- **The background, bit by bit**: the pixels that are taken one by one join the register as the
word that is stored, and the planes are used up. -/
theorem Background.store_eq_unpacked (b : Background) {group : UInt8}
    (h : b.palette = (group &&& 3) <<< 2) :
    let u := (Unpacking.takeLeft b.palette)^[8] { low := b.low, high := b.high }
    b.store = { b with pixels := b.pixels ||| u.word.toUInt64, low := u.low, high := u.high } := by
  intro u
  have hword : Pattern.row b.palette b.low b.high = u.word := by
    rw [h, Pattern.row_eq_unpacked, ← h]
  have hused : ∀ x : UInt8, (fun x : UInt8 => x <<< 1)^[8] x = 0 := by
    intro x
    have htable := Byte.shiftLeft_eight ⟨x.toNat, x.toNat_lt⟩
    rwa [UInt8.ofNat_toNat] at htable
  have hlow : u.low = 0 := hused b.low
  have hhigh : u.high = 0 := hused b.high
  rw [store, hword, hlow, hhigh]

/-! ## Rows of entries -/

namespace Oam

/-- Replaces the attributes of an entry. -/
def setAttributes (o : Oam) (entry : Fin 64) (value : UInt8) : Oam :=
  o.set (entry.val * 4 + 2) value (by omega)

theorem byte_setAttributes (o : Oam) (entry : Fin 64) (value : UInt8) (field : Fin 4) :
    (o.setAttributes entry value).byte entry field =
      if field = 2 then value else o.byte entry field := by
  unfold setAttributes byte
  dsimp only
  rw [Vector.getElem_set]
  congr 1
  rw [Fin.ext_iff]
  exact propext ⟨fun h => (Nat.add_left_cancel h).symm, fun h => by rw [h]; rfl⟩

theorem attributes_setAttributes (o : Oam) (entry : Fin 64) (value : UInt8) :
    (o.setAttributes entry value).attributes entry = value :=
  o.byte_setAttributes entry value 2

theorem tile_setAttributes (o : Oam) (entry : Fin 64) (value : UInt8) :
    (o.setAttributes entry value).tile entry = o.tile entry :=
  o.byte_setAttributes entry value 1

end Oam

namespace Ppu

/-- The height of the sprites. -/
def spriteHeight (p : Ppu) : Nat := if p.ctrl.toNat.testBit 5 then 16 else 8

/-- The row of the shape that is shown on a row of the sprite of an entry. -/
def spriteShapeRow (p : Ppu) (entry : Fin 64) (row : Nat) : Nat :=
  if (p.oam.attributes entry).toNat.testBit 7 then p.spriteHeight - 1 - row else row

/-- Where the low plane of that row is stored; the high plane is eight bytes further. -/
def spritePlane (p : Ppu) (entry : Fin 64) (row : Nat) : Nat :=
  let tile := (p.oam.tile entry).toNat
  let shapeRow := p.spriteShapeRow entry row
  if p.ctrl.toNat.testBit 5 then
    0x1000 * (tile % 2) + 16 * (2 * (tile / 2) + shapeRow / 8) + shapeRow % 8
  else (if p.ctrl.toNat.testBit 3 then 0x1000 else 0) + 16 * tile + shapeRow

/-- The state with other attributes for an entry. -/
def withAttributes (p : Ppu) (entry : Fin 64) (value : UInt8) : Ppu :=
  { p with oam := p.oam.setAttributes entry value }

theorem spriteShape_eq (p : Ppu) :
    p.spriteShape = ⟨p.ctrl.toNat.testBit 5, p.ctrl.toNat.testBit 3⟩ := by
  have hbit : ∀ {m : UInt8} {k : Nat}, m.toNat = 2 ^ k →
      decide (p.ctrl &&& m ≠ 0) = p.ctrl.toNat.testBit k := by
    intro m k hm
    rw [Bool.eq_iff_iff, decide_eq_true_iff]
    exact Byte.and_ne_zero_iff p.ctrl hm
  rw [spriteShape, hbit (k := 5) rfl, hbit (k := 3) rfl]

theorem height_spriteShape (p : Ppu) : p.spriteShape.height = p.spriteHeight := by
  rw [spriteShape_eq]
  rfl

variable {μ : Type} [Board μ]

/-- A row of the sprite of an entry, if the cartridge has the bytes of its shape. -/
def spriteRow? (p : Ppu) (board : μ) (entry : Fin 64) (row : Nat) : Option UInt32 :=
  Sprite.fetchRow? p.vram board p.spriteShape p.oam entry (UInt16.ofNat row)

variable (p : Ppu) (board : μ) (entry : Fin 64) (row : Fin p.spriteHeight)

omit [Board μ] in
/-- The row is shown on the line that is as many lines below the first one. -/
theorem covers_row :
    p.oam.covers p.spriteShape.height ((p.oam.line entry).toNat + row) entry = true := by
  have hrow := row.isLt
  rw [Oam.covers_iff, height_spriteShape]
  omega

omit [Board μ] in
theorem planeAddress_eq (row : Nat) :
    p.oam.planeAddress p.spriteShape ((p.oam.line entry).toNat + row) entry =
      p.spritePlane entry row := by
  rw [Oam.planeAddress, Oam.shapeRow, Nat.add_sub_cancel_left, height_spriteShape, spriteShape_eq]
  rfl

omit [Board μ] in
/-- Both planes of every row lie where the cartridge answers. -/
theorem spritePlane_lt : p.spritePlane entry row + 8 < 0x2000 := by
  rw [← planeAddress_eq]
  exact Sprite.planeAddress_lt _ _ (p.covers_row entry row)

omit [Board μ] in
theorem toNat_rowAddress :
    (Sprite.rowAddress p.spriteShape p.oam entry (UInt16.ofNat row)).toNat =
      p.spritePlane entry row := by
  have h := Sprite.toNat_rowAddress p.oam p.spriteShape (p.covers_row entry row)
  rwa [Nat.add_sub_cancel_left, planeAddress_eq] at h

/-- A row is decoded from the two bytes, if they are there. -/
theorem spriteRow?_eq :
    p.spriteRow? board entry row =
      (Board.ppuRead board (UInt16.ofNat (p.spritePlane entry row))).bind fun low =>
        (Board.ppuRead board (UInt16.ofNat (p.spritePlane entry row + 8))).map fun high =>
          Sprite.decode (p.oam.attributes entry) low high := by
  have haddress := p.toNat_rowAddress entry row
  have hlt := p.spritePlane_lt entry row
  unfold spriteRow? Sprite.fetchRow?
  generalize Sprite.rowAddress p.spriteShape p.oam entry (UInt16.ofNat row) = address at haddress
  have hnext : (address + 8).toNat = p.spritePlane entry row + 8 := by
    rw [UInt16.toNat_add, haddress]
    exact Nat.mod_eq_of_lt (Nat.lt_trans hlt (by decide))
  rw [← hnext, ← haddress, UInt16.ofNat_toNat, UInt16.ofNat_toNat]
  dsimp only
  rw [p.vram.read_of_lt board (by omega), p.vram.read_of_lt board (by omega)]
  cases Board.ppuRead board address <;> cases Board.ppuRead board (address + 8) <;> rfl

/-! ## Flips -/

omit [Board μ] in
/-- The bytes of a row are found by the tile and the row of its shape. -/
theorem spritePlane_congr {p q : Ppu} {entry : Fin 64} (hctrl : q.ctrl = p.ctrl)
    (htile : q.oam.tile entry = p.oam.tile entry) {row row' : Nat}
    (hrow : q.spriteShapeRow entry row = p.spriteShapeRow entry row') :
    q.spritePlane entry row = p.spritePlane entry row' := by
  rw [spritePlane, hctrl, htile, hrow, spritePlane]

omit [Board μ] in
theorem attributes_withAttributes (value : UInt8) :
    (p.withAttributes entry value).oam.attributes entry = value :=
  p.oam.attributes_setAttributes entry value

omit [Board μ] in
theorem spriteShapeRow_withAttributes (value : UInt8) (row : Nat) :
    (p.withAttributes entry value).spriteShapeRow entry row =
      if value.toNat.testBit 7 then p.spriteHeight - 1 - row else row := by
  rw [spriteShapeRow, attributes_withAttributes]
  rfl

omit [Board μ] in
theorem spritePlane_withAttributes {value value' : UInt8} {row row' : Nat}
    (h : (p.withAttributes entry value).spriteShapeRow entry row =
      (p.withAttributes entry value').spriteShapeRow entry row') :
    (p.withAttributes entry value).spritePlane entry row =
      (p.withAttributes entry value').spritePlane entry row' := by
  have htile : ∀ v, (p.withAttributes entry v).oam.tile entry = p.oam.tile entry :=
    p.oam.tile_setAttributes entry
  have hctrl : (p.withAttributes entry value).ctrl = (p.withAttributes entry value').ctrl := rfl
  exact spritePlane_congr hctrl ((htile value).trans (htile value').symm) h

theorem spriteRow?_withAttributes (value : UInt8) :
    (p.withAttributes entry value).spriteRow? board entry row =
      (Board.ppuRead board (UInt16.ofNat
          ((p.withAttributes entry value).spritePlane entry row))).bind fun low =>
        (Board.ppuRead board (UInt16.ofNat
            ((p.withAttributes entry value).spritePlane entry row + 8))).map fun high =>
          Sprite.decode value low high := by
  have h := (p.withAttributes entry value).spriteRow?_eq board entry row
  rwa [p.attributes_withAttributes entry value] at h

/-- A horizontal flip shows the same pixels from right to left. -/
theorem mirrored_spriteRow (a : UInt8) :
    Option.Rel Pattern.Mirrored
      ((p.withAttributes entry (a &&& ~~~0x40)).spriteRow? board entry row)
      ((p.withAttributes entry (a ||| 0x40)).spriteRow? board entry row) := by
  have hturned : (a &&& ~~~0x40).toNat.testBit 7 = (a ||| 0x40).toNat.testBit 7 := by
    have hset : (0x40 : UInt8).toNat.testBit 7 = false := by decide
    have hclear : (~~~0x40 : UInt8).toNat.testBit 7 = true := by decide
    rw [UInt8.toNat_and, UInt8.toNat_or, Nat.testBit_and, Nat.testBit_or, hset, hclear,
      Bool.and_true, Bool.or_false]
  have hplane : (p.withAttributes entry (a &&& ~~~0x40)).spritePlane entry row =
      (p.withAttributes entry (a ||| 0x40)).spritePlane entry row := by
    apply p.spritePlane_withAttributes
    rw [spriteShapeRow_withAttributes, spriteShapeRow_withAttributes, hturned]
  rw [spriteRow?_withAttributes, spriteRow?_withAttributes, hplane]
  cases Board.ppuRead board
      (UInt16.ofNat ((p.withAttributes entry (a ||| 0x40)).spritePlane entry row)) with
  | none => exact .none
  | some low =>
      cases Board.ppuRead board
          (UInt16.ofNat ((p.withAttributes entry (a ||| 0x40)).spritePlane entry row + 8)) with
      | none => exact .none
      | some high => exact .some (Sprite.mirrored_decode a low high)

/-- A vertical flip shows the rows from below. -/
theorem turned_spriteRow (a : UInt8) :
    (p.withAttributes entry (a ||| 0x80)).spriteRow? board entry row =
      (p.withAttributes entry (a &&& ~~~0x80)).spriteRow? board entry row.rev := by
  have hset : (a ||| 0x80).toNat.testBit 7 = true := Byte.testBit_set a rfl
  have hclear : (a &&& ~~~0x80).toNat.testBit 7 = false := Byte.testBit_clear a rfl
  have hplane : (p.withAttributes entry (a ||| 0x80)).spritePlane entry row =
      (p.withAttributes entry (a &&& ~~~0x80)).spritePlane entry row.rev := by
    apply p.spritePlane_withAttributes
    rw [spriteShapeRow_withAttributes, spriteShapeRow_withAttributes, hset, hclear, if_pos rfl,
      if_neg Bool.false_ne_true, Fin.val_rev]
    omega
  have hdecode : Sprite.decode (a ||| 0x80) = Sprite.decode (a &&& ~~~0x80) := by
    funext low high
    have hkept : ∀ k : UInt8, 0x80 &&& k = 0 → (a ||| 0x80) &&& k = (a &&& ~~~0x80) &&& k :=
      fun k hk => (Byte.or_and_of_disjoint a hk).trans (Byte.and_not_and_of_disjoint a hk).symm
    rw [Sprite.decode, hkept 3 (by decide), hkept 0x40 (by decide), Sprite.decode]
  rw [spriteRow?_withAttributes, spriteRow?_withAttributes, hplane, hdecode]

end Ppu

/-! ## Decoding -/

/-- A decoded row, given the bytes of its planes. -/
structure RowWord (attributes low high : UInt8) (word : UInt32) : Prop where
  /-- The digits are the numbers of the palette group and of the bits of the planes. -/
  digits : ∀ k < 8, Pattern.digitAt word k = 4 * (attributes.toNat % 4) +
    Pattern.bitPair low high (if attributes.toNat.testBit 6 then k else 7 - k)
  /-- The word can be made bit by bit. -/
  unpacked : word = ((Unpacking.take attributes)^[8] { low, high }).word
  /-- If it is not flipped, the background stores the same word for the same bytes and the same
  group, and makes it bit by bit as well. -/
  stored : attributes.toNat.testBit 6 = false → ∀ b : Background, b.low = low → b.high = high →
    b.palette = (attributes &&& 3) <<< 2 →
    let u := (Unpacking.takeLeft b.palette)^[8] { low := b.low, high := b.high }
    b.store.pixels = b.pixels ||| word.toUInt64 ∧ u.word = word ∧
      b.store = { b with pixels := b.pixels ||| u.word.toUInt64, low := u.low, high := u.high }

theorem Sprite.rowWord_decode (attributes low high : UInt8) :
    RowWord attributes low high (decode attributes low high) where
  digits _ hk := digitAt_decode attributes low high hk
  unpacked := decode_eq_unpacked attributes low high
  stored := by
    rintro hbit b rfl rfl hpalette
    have hrow : decode attributes b.low b.high = Pattern.row b.palette b.low b.high := by
      rw [decode_eq_row hbit, hpalette]
    rw [hrow]
    refine ⟨rfl, ?_, b.store_eq_unpacked hpalette⟩
    rw [hpalette, Pattern.row_eq_unpacked]

namespace Ppu

variable {μ : Type} [Board μ]

/-- How a row of the sprite of an entry is decoded. -/
structure DecodesRow (p : Ppu) (board : μ) (entry : Fin 64) (row : Fin p.spriteHeight) : Prop where
  /-- The bytes lie where the cartridge answers. -/
  inWindow : p.spritePlane entry row + 8 < 0x2000
  /-- Nothing is decoded if the cartridge lacks one of the bytes. -/
  lacking : p.spriteRow? board entry row = none ↔
    Board.ppuRead board (UInt16.ofNat (p.spritePlane entry row)) = none ∨
      Board.ppuRead board (UInt16.ofNat (p.spritePlane entry row + 8)) = none
  /-- Otherwise its digits are made of their bits. -/
  decoded : ∀ low high, Board.ppuRead board (UInt16.ofNat (p.spritePlane entry row)) = some low →
    Board.ppuRead board (UInt16.ofNat (p.spritePlane entry row + 8)) = some high →
    ∃ word, p.spriteRow? board entry row = some word ∧
      RowWord (p.oam.attributes entry) low high word
  /-- The bit of the horizontal flip turns the pixels round, -/
  mirrored : ∀ attributes : UInt8, Option.Rel Pattern.Mirrored
    ((p.withAttributes entry (attributes &&& ~~~0x40)).spriteRow? board entry row)
    ((p.withAttributes entry (attributes ||| 0x40)).spriteRow? board entry row)
  /-- and the bit of the vertical flip the rows. -/
  turned : ∀ attributes : UInt8,
    (p.withAttributes entry (attributes ||| 0x80)).spriteRow? board entry row =
      (p.withAttributes entry (attributes &&& ~~~0x80)).spriteRow? board entry row.rev

/-- **Every row of every sprite** is decoded from its two bytes. -/
theorem decodesRow (p : Ppu) (board : μ) (entry : Fin 64) (row : Fin p.spriteHeight) :
    DecodesRow p board entry row := by
  have hrow := p.spriteRow?_eq board entry row
  constructor
  case inWindow => exact p.spritePlane_lt entry row
  case lacking =>
    rw [hrow]
    cases Board.ppuRead board (UInt16.ofNat (p.spritePlane entry row)) <;>
      cases Board.ppuRead board (UInt16.ofNat (p.spritePlane entry row + 8)) <;> simp
  case decoded =>
    intro low high hlow hhigh
    rw [hlow, hhigh] at hrow
    exact ⟨_, hrow, Sprite.rowWord_decode _ low high⟩
  case mirrored => exact p.mirrored_spriteRow board entry row
  case turned => exact p.turned_spriteRow board entry row

end Ppu

end Nes
