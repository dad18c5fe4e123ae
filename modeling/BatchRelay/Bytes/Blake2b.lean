/-!
# The BLAKE2b hash with 32 byte results

The message is cut into blocks of 128 bytes.  Each block is mixed into eight
64 bit words in twelve rounds; the first four words at the end are the hash.
All arithmetic is modulo `2 ^ 64`.
-/

namespace BatchRelay

namespace Blake2b

/-- The words that the hash starts from. -/
def initial : Vector UInt64 8 :=
  #v[0x6a09e667f3bcc908, 0xbb67ae8584caa73b, 0x3c6ef372fe94f82b,
    0xa54ff53a5f1d36f1, 0x510e527fade682d1, 0x9b05688c2b3e6c1f,
    0x1f83d9abfb41bd6b, 0x5be0cd19137e2179]

/-- The order in which each round takes the words of a block. -/
def schedule : List (Vector (Fin 16) 16) :=
  [#v[0, 1, 2, 3, 4, 5, 6, 7, 8, 9, 10, 11, 12, 13, 14, 15],
    #v[14, 10, 4, 8, 9, 15, 13, 6, 1, 12, 0, 2, 11, 7, 5, 3],
    #v[11, 8, 12, 0, 5, 2, 15, 13, 10, 14, 3, 6, 7, 1, 9, 4],
    #v[7, 9, 3, 1, 13, 12, 11, 14, 2, 6, 5, 10, 4, 0, 15, 8],
    #v[9, 0, 5, 7, 2, 4, 10, 15, 14, 1, 11, 12, 6, 8, 3, 13],
    #v[2, 12, 6, 10, 0, 11, 8, 3, 4, 13, 7, 5, 15, 14, 1, 9],
    #v[12, 5, 1, 15, 14, 13, 4, 10, 0, 7, 6, 3, 9, 2, 8, 11],
    #v[13, 11, 7, 14, 12, 1, 3, 9, 5, 0, 15, 4, 8, 6, 2, 10],
    #v[6, 15, 14, 9, 11, 3, 0, 8, 12, 2, 13, 7, 1, 4, 10, 5],
    #v[10, 2, 8, 4, 7, 6, 1, 5, 15, 11, 9, 14, 3, 12, 13, 0],
    #v[0, 1, 2, 3, 4, 5, 6, 7, 8, 9, 10, 11, 12, 13, 14, 15],
    #v[14, 10, 4, 8, 9, 15, 13, 6, 1, 12, 0, 2, 11, 7, 5, 3]]

/-- A word turned to the right. -/
def rotate (word amount : UInt64) : UInt64 :=
  (word >>> amount) ||| (word <<< (64 - amount))

/-- Mixes two block words into four words of the state. -/
def mix (state : Vector UInt64 16) (a b c d : Fin 16) (x y : UInt64) :
    Vector UInt64 16 :=
  let first := state[a] + state[b] + x
  let fourth := rotate (state[d] ^^^ first) 32
  let third := state[c] + fourth
  let second := rotate (state[b] ^^^ third) 24
  let first := first + second + y
  let fourth := rotate (fourth ^^^ first) 16
  let third := third + fourth
  let second := rotate (second ^^^ third) 63
  (((state.set a first).set b second).set c third).set d fourth

/-- The four state words that each step of a round mixes, columns first. -/
def lanes : List (Fin 16 × Fin 16 × Fin 16 × Fin 16 × Fin 16 × Fin 16) :=
  [(0, 4, 8, 12, 0, 1), (1, 5, 9, 13, 2, 3), (2, 6, 10, 14, 4, 5),
    (3, 7, 11, 15, 6, 7), (0, 5, 10, 15, 8, 9), (1, 6, 11, 12, 10, 11),
    (2, 7, 8, 13, 12, 13), (3, 4, 9, 14, 14, 15)]

/-- One round over the words of a block. -/
def round (block : Vector UInt64 16) (state : Vector UInt64 16)
    (order : Vector (Fin 16) 16) : Vector UInt64 16 :=
  lanes.foldl (fun state (a, b, c, d, left, right) =>
    mix state a b c d block[order[left]] block[order[right]]) state

/-- Mixes one block into the hash.  `count` is the number of message bytes up
to the end of the block, and `final` marks the last block. -/
def compress (hash : Vector UInt64 8) (block : Vector UInt64 16) (count : Nat)
    (final : Bool) : Vector UInt64 8 :=
  let state := hash ++ initial
  let state := state.set 12 (state[12] ^^^ UInt64.ofNat count)
  let state := state.set 13 (state[13] ^^^ UInt64.ofNat (count / UInt64.size))
  let state := if final then state.set 14 (~~~ state[14]) else state
  let mixed := schedule.foldl (round block) state
  Vector.ofFn fun index : Fin 8 =>
    hash[index] ^^^ mixed[index.val] ^^^ mixed[index.val + 8]

/-- The number whose bytes these are, the lowest first. -/
def wordOfBytes (bytes : List UInt8) : UInt64 :=
  bytes.foldr (fun byte word => (word <<< 8) ||| byte.toUInt64) 0

/-- The eight bytes of a word, the lowest first. -/
def bytesOfWord (word : UInt64) : List UInt8 :=
  [0, 8, 16, 24, 32, 40, 48, 56].map fun (shift : UInt64) =>
    (word >>> shift).toUInt8

/-- The words of a block of at most 128 bytes; missing bytes are zero. -/
def blockWords (bytes : List UInt8) : Vector UInt64 16 :=
  Vector.ofFn fun index : Fin 16 =>
    wordOfBytes ((bytes.drop (8 * index.val)).take 8)

/-- Mixes a message block by block.  `done` bytes are already in the hash. -/
def absorb (hash : Vector UInt64 8) (done : Nat) (message : List UInt8) :
    Vector UInt64 8 :=
  if message.length ≤ 128 then
    compress hash (blockWords message) (done + message.length) true
  else
    absorb (compress hash (blockWords (message.take 128)) (done + 128) false)
      (done + 128) (message.drop 128)
termination_by message.length
decreasing_by simp; omega

/-- The 32 byte hash of a message. -/
def hash (message : List UInt8) : List UInt8 :=
  let start := initial.set 0 (initial[0] ^^^ 0x01010020)
  ((absorb start 0 message).toList.take 4).flatMap bytesOfWord

end Blake2b

end BatchRelay
