
namespace SchemaOrder.Random
-- Random numbers.
structure Source (σ : Type) where
  narrow : (limit : Nat) → σ → Fin (limit + 1) × σ
  wide : (limit : Nat) → σ → Fin (limit + 1) × σ

abbrev Block := Vector UInt32 16

def rotateLeft (x : UInt32) (n : UInt32) : UInt32 :=
  (x <<< n) ||| (x >>> (32 - n))

def rotateRight (x : UInt32) (n : UInt32) : UInt32 :=
  if n = 0 then x else (x >>> n) ||| (x <<< (32 - n))

def quarterRound (v : Block) (a b c d : Fin 16) : Block :=
  let v := v.set a (v[a] + v[b])
  let v := v.set d (rotateLeft (v[d] ^^^ v[a]) 16)
  let v := v.set c (v[c] + v[d])
  let v := v.set b (rotateLeft (v[b] ^^^ v[c]) 12)
  let v := v.set a (v[a] + v[b])
  let v := v.set d (rotateLeft (v[d] ^^^ v[a]) 8)
  let v := v.set c (v[c] + v[d])
  v.set b (rotateLeft (v[b] ^^^ v[c]) 7)

def doubleRound (v : Block) : Block :=
  let v := quarterRound v 0 4 8 12
  let v := quarterRound v 1 5 9 13
  let v := quarterRound v 2 6 10 14
  let v := quarterRound v 3 7 11 15
  let v := quarterRound v 0 5 10 15
  let v := quarterRound v 1 6 11 12
  let v := quarterRound v 2 7 8 13
  quarterRound v 3 4 9 14

def rounds : Nat → Block → Block
  | 0,v => v
  | n + 1,v => rounds n (doubleRound v)

structure Stream where
  key : Vector UInt32 8
  counter : UInt64
  pending : List UInt32
namespace Stream
def constants : Vector UInt32 4 :=
  #v[0x61707865,0x3320646e,0x79622d32,0x6b206574]

def position (s : Stream) : Vector UInt32 4 :=
  #v[s.counter.toUInt32,(s.counter >>> 32).toUInt32,0,0]

def initial (s : Stream) : Block :=
  constants ++ s.key ++ s.position

def block (s : Stream) : List UInt32 :=
  (Vector.zipWith (· + ·) (rounds 6 s.initial) s.initial).toList

def next (s : Stream) : UInt32 × Stream :=
  match s.pending with
  | w :: rest => (w,{ s with pending := rest })
  | [] =>
    match s.block with
    | w :: rest => (w,{ s with counter := s.counter + 1,pending := rest })
    | [] => (0,s)

def nextWide (s : Stream) : UInt64 × Stream :=
  let (low,s) := s.next
  let (high,s) := s.next
  (low.toUInt64 ||| (high.toUInt64 <<< 32),s)

def expand (seed : UInt64) : UInt32 × UInt64 :=
  let seed := seed * 6364136223846793005 + 11634580027462260723
  (rotateRight (((seed >>> 18) ^^^ seed) >>> 27).toUInt32 (seed >>> 59).toUInt32,seed)

def keyWords : (n : Nat) → UInt64 → Vector UInt32 n
  | 0,_ => #v[]
  | n + 1,seed =>
    let (word,seed) := expand seed
    (#v[word] ++ keyWords n seed).cast (Nat.add_comm 1 n)

def ofSeed (seed : UInt64) : Stream :=
  { key := keyWords 8 seed,counter := 0,pending := [] }
end Stream
def fairZone (width count : Nat) : Nat :=
  count * Nat.pow 2 (width - (Nat.log2 count + 1)) - 1

def scale (width limit word : Nat) : Fin (limit + 1) :=
  ⟨(word % Nat.pow 2 width) * (limit + 1) / Nat.pow 2 width,
    Nat.div_lt_of_lt_mul ((Nat.mul_lt_mul_right (Nat.succ_pos limit)).2 (Nat.mod_lt _ (Nat.two_pow_pos width)))⟩

-- Draws words until one is fair. Half of all words are, so the bound on the tries is out of reach.
def drawWithin {σ : Type} (width : Nat) (word : σ → Nat × σ) (limit : Nat) : Nat → σ → Fin (limit + 1) × σ
  | 0,s => (0,s)
  | tries + 1,s =>
    let (w,s) := word s
    if w * (limit + 1) % Nat.pow 2 width ≤ fairZone width (limit + 1) then (scale width limit w,s)
    else drawWithin width word limit tries s

def drawTries : Nat := 1000

def Stream.source : Source Stream where
  narrow limit := drawWithin 32 (fun s => let (w,s) := s.next; (w.toNat,s)) limit drawTries
  wide limit := drawWithin 64 (fun s => let (w,s) := s.nextWide; (w.toNat,s)) limit drawTries
end SchemaOrder.Random
