import Nes.Ppu.Step

/-!
# Requests to the picture unit

A picture unit by itself, with the board it is wired to, takes four kinds of requests: to move on by
one dot, to read or write a register, and to hand over the interrupt it has delivered. A session is
the state between two requests. Only writes reach the board; a dot and a read look at it.
-/

set_option autoImplicit false

namespace Nes.Ppu

/-- What a picture unit can be asked for. -/
inductive Request
  | dot
  | read (addr : UInt16)
  | write (addr : UInt16) (value : UInt8)
  | takeNmi
  deriving DecidableEq, Repr

/-- Whether a request is a dot. -/
def Request.isDot : Request → Bool
  | dot => true
  | _ => false

/-- A picture unit and the board it is wired to. -/
structure Session (μ : Type) where
  ppu : Ppu
  board : μ

namespace Session

variable {μ : Type} [Board μ]

/-- The session after a request. -/
def perform (s : Session μ) : Request → Session μ
  | .dot => { s with ppu := s.ppu.step s.board }
  | .read addr => { s with ppu := (s.ppu.readRegister s.board addr).2 }
  | .write addr value =>
      let r := s.ppu.writeRegister s.board addr value
      ⟨r.1, r.2⟩
  | .takeNmi => { s with ppu := s.ppu.takeNmi }

/-- The session after some requests. -/
def performAll (s : Session μ) (rs : List Request) : Session μ := rs.foldl perform s

/-- The byte that a request returns, if it is a read. -/
def byte? (s : Session μ) : Request → Option UInt8
  | .read addr => some (s.ppu.readRegister s.board addr).1
  | _ => none

/-- Whether a request is handed an interrupt, if it asks for one. -/
def taken? (s : Session μ) : Request → Option Bool
  | .takeNmi => some s.ppu.nmiPending
  | _ => none

/-- What some requests make visible, one after the other: `look` says what one of them does. -/
def collect {α : Type} (look : Session μ → Request → α) (s : Session μ) : List Request → List α
  | [] => []
  | r :: rs => look s r :: collect look (s.perform r) rs

/-- The bytes that some requests return. -/
def bytes (s : Session μ) (rs : List Request) : List UInt8 := (s.collect byte? rs).filterMap id

@[simp] theorem performAll_nil (s : Session μ) : s.performAll [] = s := rfl

@[simp] theorem performAll_cons (s : Session μ) (r : Request) (rs : List Request) :
    s.performAll (r :: rs) = (s.perform r).performAll rs := rfl

theorem performAll_append (s : Session μ) (rs rs' : List Request) :
    s.performAll (rs ++ rs') = (s.performAll rs).performAll rs' :=
  List.foldl_append ..

theorem bytes_cons (s : Session μ) (r : Request) (rs : List Request) :
    s.bytes (r :: rs) = (s.byte? r).toList ++ (s.perform r).bytes rs := by
  rw [bytes, collect, List.filterMap_cons]
  cases s.byte? r <;> rfl

end Session

end Nes.Ppu
