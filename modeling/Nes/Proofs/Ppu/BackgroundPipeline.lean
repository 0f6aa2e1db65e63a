import Nes.Proofs.Ppu.BackgroundTile
import Nes.Proofs.Ppu.Footprint

/-!
# The fetch cycle as a stream of pixels

Sixteen digits wait in the shift register. Some dots after a fetch cycle has started at a place of
the plane, they are the sixteen pixels of its row that come next, as far as their tiles have been
fetched, and zeros after that (`Fetching`). A dot moves this window on by one pixel, and the eighth
dot of a tile fills the zeros at its end (`Fetching.fetch`).
-/

set_option autoImplicit false

namespace Nes

/-! ## Digits of the shift register -/

/-- A digit of the shift register, counted from the one that is drawn first. -/
def nibble (w : UInt64) (i : Nat) : Nat := w.toNat / 2 ^ (4 * (15 - i)) % 16

theorem Pattern.toNat_digit (word : UInt32) {k : Nat} (hk : k < 8) :
    (digit word (UInt32.ofNat k)).toNat = word.toNat / 2 ^ (4 * (7 - k)) % 16 := by
  have hplace : ((7 - UInt32.ofNat k) * 4).toNat = 4 * (7 - k) := by
    have hcolumn : (UInt32.ofNat k).toNat = k :=
      UInt32.toNat_ofNat_of_lt' (Nat.lt_trans hk (by decide))
    have hle : UInt32.ofNat k ≤ 7 := by
      rw [UInt32.le_iff_toNat_le, hcolumn]
      exact Nat.le_of_lt_succ hk
    rw [UInt32.toNat_mul, UInt32.toNat_sub_of_le _ _ hle, hcolumn]
    show (7 - k) * 4 % 4294967296 = _
    omega
  have hmask : ((word >>> ((7 - UInt32.ofNat k) * 4)) &&& 0x0F).toNat =
      (word >>> ((7 - UInt32.ofNat k) * 4)).toNat % 16 := by
    rw [UInt32.toNat_and]
    exact Nat.and_two_pow_sub_one_eq_mod _ 4
  rw [digit, UInt32.toNat_toUInt8, hmask, UInt32.toNat_shiftRight, hplace,
    Nat.mod_eq_of_lt (by omega : 4 * (7 - k) < 32), Nat.shiftRight_eq_div_pow]
  exact Nat.mod_eq_of_lt (Nat.lt_trans (Nat.mod_lt _ (by decide)) (by decide))

/-- The digit drawn at a fine horizontal offset. -/
theorem Background.toNat_digit (b : Background) {fineX : UInt8} (h : fineX.toNat < 8) :
    (b.digit fineX).toNat = nibble b.pixels fineX.toNat := by
  have hupper : (b.pixels >>> 32).toUInt32.toNat = b.pixels.toNat / 2 ^ 32 := by
    have hlt := b.pixels.toNat_lt
    rw [UInt64.toNat_toUInt32, UInt64.toNat_shiftRight]
    show b.pixels.toNat >>> 32 % 4294967296 = _
    rw [Nat.shiftRight_eq_div_pow]
    omega
  have hoffset : fineX.toUInt32 = UInt32.ofNat fineX.toNat := (UInt32.ofNat_uInt8ToNat fineX).symm
  have hexp : 32 + 4 * (7 - fineX.toNat) = 4 * (15 - fineX.toNat) := by omega
  calc (b.digit fineX).toNat
      = (Pattern.digit (b.pixels >>> 32).toUInt32 (UInt32.ofNat fineX.toNat)).toNat := by
        rw [digit, hoffset]
    _ = b.pixels.toNat / 2 ^ 32 / 2 ^ (4 * (7 - fineX.toNat)) % 16 := by
        rw [Pattern.toNat_digit _ h, hupper]
    _ = b.pixels.toNat / 2 ^ (4 * (15 - fineX.toNat)) % 16 := by
        rw [Nat.div_div_eq_div_mul, ← Nat.pow_add, hexp]

theorem toNat_shiftLeft_four (w : UInt64) : (w <<< 4).toNat = w.toNat * 16 % 2 ^ 64 := by
  rw [UInt64.toNat_shiftLeft, Nat.shiftLeft_eq]
  rfl

theorem nibble_shiftLeft (w : UInt64) {i : Nat} (hi : i < 15) :
    nibble (w <<< 4) i = nibble w (i + 1) := by
  obtain ⟨j, hj⟩ : ∃ j, 14 - i = j := ⟨_, rfl⟩
  have hplace : 4 * (15 - i) = 4 + 4 * j := by omega
  have hplace' : 4 * (15 - (i + 1)) = 4 * j := by omega
  have hsplit : 2 ^ 64 = 2 ^ (4 + 4 * j) * (16 * 2 ^ (56 - 4 * j)) := by
    show 2 ^ 64 = 2 ^ (4 + 4 * j) * (2 ^ 4 * 2 ^ (56 - 4 * j))
    rw [← Nat.pow_add, ← Nat.pow_add]
    congr 1
    omega
  -- the digits above the register are lost, and what is left has moved by one
  have hfour : 2 ^ (4 + 4 * j) = 16 * 2 ^ (4 * j) := Nat.pow_add 2 4 (4 * j)
  rw [nibble, nibble, hplace, hplace', toNat_shiftLeft_four]
  calc w.toNat * 16 % 2 ^ 64 / 2 ^ (4 + 4 * j) % 16
      = w.toNat * 16 / 2 ^ (4 + 4 * j) % (16 * 2 ^ (56 - 4 * j)) % 16 := by
        rw [hsplit, Nat.mod_mul_right_div_self]
    _ = w.toNat * 16 / 2 ^ (4 + 4 * j) % 16 := by rw [Nat.mod_mul_right_mod]
    _ = w.toNat * 16 / 16 / 2 ^ (4 * j) % 16 := by rw [hfour, Nat.div_div_eq_div_mul]
    _ = w.toNat / 2 ^ (4 * j) % 16 := by rw [Nat.mul_div_cancel _ (by decide)]

theorem nibble_shiftLeft_last (w : UInt64) : nibble (w <<< 4) 15 = 0 := by
  rw [nibble, toNat_shiftLeft_four]
  omega

/-- A word of eight digits joins the register from below. -/
theorem nibble_or (w : UInt64) (word : UInt32) {i : Nat} (hi : i < 16) :
    nibble (w ||| word.toUInt64) i =
      nibble w i ||| if i < 8 then 0 else (Pattern.digit word (UInt32.ofNat (i - 8))).toNat := by
  have hor : ∀ a b n : Nat, (a ||| b) / 2 ^ n % 16 = a / 2 ^ n % 16 ||| b / 2 ^ n % 16 := by
    intro a b n
    rw [Nat.or_div_two_pow]
    exact Nat.or_mod_two_pow (n := 4)
  rw [nibble, UInt64.toNat_or, UInt32.toNat_toUInt64, hor, ← nibble]
  congr 1
  split
  · next h =>
      have hbig : word.toNat < 2 ^ (4 * (15 - i)) :=
        Nat.lt_of_lt_of_le word.toNat_lt (Nat.pow_le_pow_right (by decide) (by omega))
      rw [Nat.div_eq_of_lt hbig]
  · next h =>
      have hplace : 4 * (15 - i) = 4 * (7 - (i - 8)) := by omega
      rw [hplace, Pattern.toNat_digit word (by omega)]

/-! ## The window on a stream -/

/-- After some shifts of an empty register, of a stream that goes in from below, in which a number
of digits is known: the window holds known digits and then zeros. -/
def Window (stream : Nat → Nat) (known shifts : Nat) (w : UInt64) : Prop :=
  ∀ i < 16, 16 ≤ i + shifts →
    nibble w i = if i + shifts - 16 < known then stream (i + shifts - 16) else 0

theorem Window.shift {stream : Nat → Nat} {known shifts : Nat} {w : UInt64}
    (h : Window stream known shifts w) (hknown : known ≤ shifts) :
    Window stream known (shifts + 1) (w <<< 4) := by
  intro i hi hentered
  by_cases hlast : i = 15
  · subst hlast
    rw [nibble_shiftLeft_last, if_neg (by omega)]
  · have hnext : i + 1 + shifts = i + (shifts + 1) := by omega
    rw [nibble_shiftLeft w (by omega), h (i + 1) (by omega) (by omega), hnext]

/-- Eight more digits fill the lower half, which is empty eight shifts after it has been filled. -/
theorem Window.store {stream : Nat → Nat} {known : Nat} {w : UInt64} {row : UInt32}
    (h : Window stream known (known + 8) w)
    (hrow : ∀ k < 8, (Pattern.digit row (UInt32.ofNat k)).toNat = stream (known + k)) :
    Window stream (known + 8) (known + 8) (w ||| row.toUInt64) := by
  intro i hi hentered
  rw [nibble_or w row hi, h i hi hentered, if_pos (by omega : i + (known + 8) - 16 < known + 8)]
  by_cases hupper : i < 8
  · rw [if_pos (by omega), if_pos hupper, Nat.or_zero]
  · have hplace : known + (i - 8) = i + (known + 8) - 16 := by omega
    rw [if_neg (by omega), if_neg hupper, Nat.zero_or, hrow _ (by omega), hplace]

/-! ## The fetch cycle -/

namespace Ppu

variable {μ : Type} [Board μ]

/-- Some dots after the fetch cycle has started at a place of the plane: where the current address
is, which latches are filled, and the window of the shift register. -/
structure Fetching (board : μ) (column row dots : Nat) (p : Ppu) : Prop where
  address : p.scroll.v = Scroll.address (column + dots / 8) row
  tile : 1 ≤ dots % 8 → p.background.tile = p.fetchedTile board p.scroll.v
  palette : 3 ≤ dots % 8 → p.background.palette = p.fetchedPalette board p.scroll.v
  low : 5 ≤ dots % 8 → p.fetchedPlane? board p.scroll.v false = some p.background.low
  high : 7 ≤ dots % 8 → p.fetchedPlane? board p.scroll.v true = some p.background.high
  window : Window (fun j => p.planePixel board (8 * column + j) row) (8 * (dots / 8)) dots
    p.background.pixels

/-- Two states with the same nametables, tables of tiles and pipeline. -/
structure SamePipeline (p q : Ppu) : Prop where
  vram : q.vram = p.vram
  ctrl : q.ctrl = p.ctrl
  v : q.scroll.v = p.scroll.v
  background : q.background = p.background

theorem planePixel_congr {p q : Ppu} (hv : q.vram = p.vram) (hc : q.ctrl = p.ctrl) (board : μ) :
    q.planePixel board = p.planePixel board := by
  have hpeek : q.peek board = p.peek board := by
    funext addr
    rw [peek, hv, peek]
  have htable : q.backgroundTable = p.backgroundTable := by
    rw [backgroundTable, hc, backgroundTable]
  funext x y
  rw [planePixel, hpeek, htable, planePixel]

theorem fetchedTile_congr {p q : Ppu} (hv : q.vram = p.vram) (board : μ) :
    q.fetchedTile board = p.fetchedTile board := by
  funext v
  rw [fetchedTile, hv, fetchedTile]

theorem fetchedPalette_congr {p q : Ppu} (hv : q.vram = p.vram) (board : μ) :
    q.fetchedPalette board = p.fetchedPalette board := by
  funext v
  rw [fetchedPalette, hv, fetchedPalette]

theorem fetchedPlane?_congr {p q : Ppu} (hv : q.vram = p.vram) (hc : q.ctrl = p.ctrl) (board : μ) :
    q.fetchedPlane? board = p.fetchedPlane? board := by
  have htable : q.backgroundTable = p.backgroundTable := by
    rw [backgroundTable, hc, backgroundTable]
  funext v high
  rw [fetchedPlane?, fetchedTile_congr hv, htable, hv, fetchedPlane?]

theorem Fetching.congr {p q : Ppu} (hs : SamePipeline p q) {board : μ} {column row dots : Nat}
    (h : Fetching board column row dots p) : Fetching board column row dots q := by
  constructor
  · rw [hs.v, h.address]
  · rw [hs.background, hs.v, fetchedTile_congr hs.vram]
    exact h.tile
  · rw [hs.background, hs.v, fetchedPalette_congr hs.vram]
    exact h.palette
  · rw [hs.background, hs.v, fetchedPlane?_congr hs.vram hs.ctrl]
    exact h.low
  · rw [hs.background, hs.v, fetchedPlane?_congr hs.vram hs.ctrl]
    exact h.high
  · rw [hs.background, planePixel_congr hs.vram hs.ctrl]
    exact h.window

/-- The pipeline moves on by one digit. -/
def shifted (p : Ppu) : Ppu := { p with background := p.background.shift }

/-- What a dot of the fetch cycle does, by its place among the eight dots of a tile. -/
theorem fetch_eq (p : Ppu) (board : μ) :
    p.fetch board =
      let b := p.background.shift
      match p.beam.dot % 8 with
      | 1 => { p with background := { b with tile := p.fetchedTile board p.scroll.v } }
      | 3 => { p with background := { b with palette := p.fetchedPalette board p.scroll.v } }
      | 5 => p.shifted.fetchPlane board false
      | 7 => p.shifted.fetchPlane board true
      | 0 => { p with background := b.store, scroll := p.scroll.incrementX }
      | _ => p.shifted := rfl

/-- A plane is fetched, unless the cartridge lacks it. -/
theorem fetchPlane_eq {p : Ppu} {board : μ} {high : Bool}
    (htile : p.background.tile = p.fetchedTile board p.scroll.v)
    (hf : (p.fetchPlane board high).fault = false) :
    ∃ value, p.fetchedPlane? board p.scroll.v high = some value ∧
      p.fetchPlane board high =
        if high then { p with background := { p.background with high := value } }
        else { p with background := { p.background with low := value } } := by
  unfold fetchPlane at hf ⊢
  dsimp only at hf ⊢
  rw [htile] at hf ⊢
  cases hread : p.fetchedPlane? board p.scroll.v high with
  | none =>
      rw [fetchedPlane?] at hread
      rw [hread] at hf
      cases hf
  | some value =>
      refine ⟨value, rfl, ?_⟩
      rw [fetchedPlane?] at hread
      rw [hread]

/-- A dot within a tile shifts the register, keeps the current address and fills latches. -/
theorem Fetching.within {board : μ} {column row dots : Nat} {p q : Ppu}
    (h : Fetching board column row dots p) (hdot : (dots + 1) % 8 ≠ 0) (hvram : q.vram = p.vram)
    (hctrl : q.ctrl = p.ctrl) (hv : q.scroll.v = p.scroll.v)
    (hpixels : q.background.pixels = p.background.pixels <<< 4)
    (htile : q.background.tile = p.fetchedTile board p.scroll.v)
    (hpalette : 3 ≤ (dots + 1) % 8 → q.background.palette = p.fetchedPalette board p.scroll.v)
    (hlow : 5 ≤ (dots + 1) % 8 →
      p.fetchedPlane? board p.scroll.v false = some q.background.low)
    (hhigh : 7 ≤ (dots + 1) % 8 →
      p.fetchedPlane? board p.scroll.v true = some q.background.high) :
    Fetching board column row (dots + 1) q := by
  have htiles : (dots + 1) / 8 = dots / 8 := by omega
  constructor
  · rw [hv, h.address, htiles]
  · rw [hv, fetchedTile_congr hvram]
    exact fun _ => htile
  · rw [hv, fetchedPalette_congr hvram]
    exact hpalette
  · rw [hv, fetchedPlane?_congr hvram hctrl]
    exact hlow
  · rw [hv, fetchedPlane?_congr hvram hctrl]
    exact hhigh
  · rw [hpixels, planePixel_congr hvram hctrl, htiles]
    exact h.window.shift (by omega)

/-- The last dot of a tile stores its row and moves on to the next column. -/
theorem Fetching.atEnd {board : μ} {column row dots : Nat} {p q : Ppu}
    (h : Fetching board column row dots p) (hdot : (dots + 1) % 8 = 0) (hvram : q.vram = p.vram)
    (hctrl : q.ctrl = p.ctrl) (hv : q.scroll.v = Scroll.nextColumn p.scroll.v)
    (hbackground : q.background = p.background.shift.store) :
    Fetching board column row (dots + 1) q := by
  have htiles : (dots + 1) / 8 = dots / 8 + 1 := by omega
  have hrow : Pattern.row p.background.palette p.background.low p.background.high =
      p.fetchedRow board (Scroll.address (column + dots / 8) row) := by
    rw [← h.address, fetchedRow, h.palette (by omega), h.low (by omega), h.high (by omega)]
    rfl
  have hknown : 8 * (dots / 8) + 8 = dots + 1 := by omega
  have hwindow := h.window.shift (by omega)
  rw [← hknown] at hwindow
  constructor
  · rw [hv, h.address, Scroll.nextColumn_address, htiles, Nat.add_assoc]
  · exact fun h1 => absurd h1 (by omega)
  · exact fun h3 => absurd h3 (by omega)
  · exact fun h5 => absurd h5 (by omega)
  · exact fun h7 => absurd h7 (by omega)
  · -- the eight pixels that are stored are the ones after those that are known
    have hpixels : q.background.pixels = (p.background.pixels <<< 4) |||
        (p.fetchedRow board (Scroll.address (column + dots / 8) row)).toUInt64 := by
      rw [hbackground, ← hrow]
      rfl
    have hnew : 8 * ((dots + 1) / 8) = 8 * (dots / 8) + 8 := by omega
    rw [hpixels, planePixel_congr hvram hctrl, hnew, ← hknown]
    refine hwindow.store fun k hk => ?_
    have hplace : 8 * (column + dots / 8) + k = 8 * column + (8 * (dots / 8) + k) := by omega
    rw [digit_fetchedRow p board _ row hk, hplace]

/-- **A dot of the fetch cycle moves the window on by one pixel.** -/
theorem Fetching.fetch {board : μ} {column row dots : Nat} {p : Ppu}
    (h : Fetching board column row dots p) (hdot : p.beam.dot % 8 = (dots + 1) % 8)
    (hf : (p.fetch board).fault = false) :
    Fetching board column row (dots + 1) (p.fetch board) := by
  -- the place among the eight dots tells which latches are full already
  have hq := p.fetch_eq board
  dsimp only at hq
  rw [hdot] at hq
  split at hq
  · next hm =>
      rw [hq]
      exact h.within (by omega) rfl rfl rfl rfl rfl (fun h3 => absurd h3 (by omega))
        (fun h5 => absurd h5 (by omega)) fun h7 => absurd h7 (by omega)
  · next hm =>
      rw [hq]
      exact h.within (by omega) rfl rfl rfl rfl (h.tile (by omega)) (fun _ => rfl)
        (fun h5 => absurd h5 (by omega)) fun h7 => absurd h7 (by omega)
  · next hm =>
      rw [hq] at hf
      obtain ⟨value, hvalue, hplane⟩ := fetchPlane_eq (p := p.shifted) (h.tile (by omega)) hf
      rw [hq, hplane]
      exact h.within (by omega) rfl rfl rfl rfl (h.tile (by omega)) (fun _ => h.palette (by omega))
        (fun _ => hvalue) fun h7 => absurd h7 (by omega)
  · next hm =>
      rw [hq] at hf
      obtain ⟨value, hvalue, hplane⟩ := fetchPlane_eq (p := p.shifted) (h.tile (by omega)) hf
      rw [hq, hplane]
      exact h.within (by omega) rfl rfl rfl rfl (h.tile (by omega)) (fun _ => h.palette (by omega))
        (fun _ => h.low (by omega)) fun _ => hvalue
  · next hm =>
      rw [hq]
      exact h.atEnd hm rfl rfl rfl rfl
  · next h1 h3 h5 h7 h0 =>
      have hm : ¬ ((dots + 1) % 8 = 1 ∨ (dots + 1) % 8 = 3 ∨ (dots + 1) % 8 = 5 ∨
          (dots + 1) % 8 = 7 ∨ (dots + 1) % 8 = 0) := by
        rintro (h | h | h | h | h)
        · exact h1 h
        · exact h3 h
        · exact h5 h
        · exact h7 h
        · exact h0 h
      rw [hq]
      exact h.within (by omega) rfl rfl rfl rfl (h.tile (by omega)) (fun _ => h.palette (by omega))
        (fun _ => h.low (by omega)) fun _ => h.high (by omega)

end Ppu

end Nes
