import Attest.Bytes

set_option autoImplicit false

/-!
# Keccak-256

The sponge over Keccak-f[1600] with a rate of 136 bytes and the padding `1 0* 1`. The state is five
by five lanes; each step of a round is written as a function of the coordinates of a lane, taken
modulo five.
-/
namespace Attest.Keccak

abbrev State := Vector UInt64 25

def State.lane (s : State) (x y : Nat) : UInt64 := s[5 * (y % 5) + x % 5]

def State.ofLanes (f : Nat → Nat → UInt64) : State :=
  Vector.ofFn fun i => f (i.val % 5) (i.val / 5)

def rotateLeft (w : UInt64) (n : Nat) : UInt64 :=
  w <<< UInt64.ofNat n ||| w >>> UInt64.ofNat (64 - n)

def column (s : State) (x : Nat) : UInt64 :=
  s.lane x 0 ^^^ s.lane x 1 ^^^ s.lane x 2 ^^^ s.lane x 3 ^^^ s.lane x 4

def theta (s : State) : State :=
  let parity : Vector UInt64 5 := Vector.ofFn fun x => column s x.val
  let turn (x : Nat) : UInt64 :=
    parity[(x + 4) % 5] ^^^ rotateLeft parity[(x + 1) % 5] 1
  .ofLanes fun x y => s.lane x y ^^^ turn x

def offsets : Vector Nat 25 :=
  #v[0, 1, 62, 28, 27,
     36, 44, 6, 55, 20,
     3, 10, 43, 25, 39,
     41, 45, 15, 21, 8,
     18, 2, 61, 56, 14]

/-- Turns each lane by its offset and moves lane `(x, y)` to `(y, 2 x + 3 y)`. -/
def rhoPi (s : State) : State :=
  .ofLanes fun x y =>
    let start := (x + 3 * y) % 5
    rotateLeft (s.lane start x) (offsets[5 * (x % 5) + start % 5])

def chi (s : State) : State :=
  .ofLanes fun x y => s.lane x y ^^^ (~~~ s.lane (x + 1) y &&& s.lane (x + 2) y)

def roundConstants : List UInt64 :=
  [0x0000000000000001, 0x0000000000008082, 0x800000000000808A, 0x8000000080008000,
   0x000000000000808B, 0x0000000080000001, 0x8000000080008081, 0x8000000000008009,
   0x000000000000008A, 0x0000000000000088, 0x0000000080008009, 0x000000008000000A,
   0x000000008000808B, 0x800000000000008B, 0x8000000000008089, 0x8000000000008003,
   0x8000000000008002, 0x8000000000000080, 0x000000000000800A, 0x800000008000000A,
   0x8000000080008081, 0x8000000000008080, 0x0000000080000001, 0x8000000080008008]

def round (s : State) (constant : UInt64) : State :=
  let mixed := chi (rhoPi (theta s))
  mixed.set 0 (mixed[0] ^^^ constant)

def permute (s : State) : State := roundConstants.foldl round s

def rate : Nat := 136

/-- Pads to a positive multiple of the rate: `0x01`, zeros, and the top bit of the last byte. -/
def pad (data : Bytes) : Bytes :=
  let room := rate - data.length % rate
  if room = 1 then data ++ [0x81] else data ++ 0x01 :: Bytes.zeros (room - 2) ++ [0x80]

def laneOfBytes (data : Bytes) : UInt64 := UInt64.ofNat (ofBigEndian data.reverse)

def absorb (s : State) (block : Bytes) : State :=
  permute (.ofLanes fun x y =>
    let i := 5 * y + x
    if i < 17 then s.lane x y ^^^ laneOfBytes ((block.drop (8 * i)).take 8) else s.lane x y)

def blocks (data : Bytes) : List Bytes :=
  (List.range (data.length / rate)).map fun i => (data.drop (rate * i)).take rate

def digestLane (s : State) (x : Nat) : Bytes := (bigEndian 8 (s.lane x 0).toNat).reverse

theorem digestLane_length (s : State) (x : Nat) : (digestLane s x).length = 8 := by
  simp [digestLane, bigEndian_length]

def hash (data : Bytes) : Vector UInt8 32 :=
  let s := (blocks (pad data)).foldl absorb (Vector.replicate 25 0)
  ⟨(digestLane s 0 ++ digestLane s 1 ++ digestLane s 2 ++ digestLane s 3).toArray, by
    simp [digestLane_length]⟩

end Attest.Keccak
