-- SUMMARY: The SHA-512 digest, and its first half, which is how ledger keys are derived.
import Cosign.Identifier

/-!
# SHA-512

The message is padded to whole blocks of sixteen words. Each block is the start
of a schedule of eighty words, of which a window of sixteen gives the next; they
are mixed into a state of eight words one round at a time.
The digest is the state after the last block, written most significant byte
first; `half` keeps its first 32 bytes.
-/

namespace Cosign.Sha512

/-! ## Constants -/

/-- The eight words of the running digest. -/
structure State where
  a : UInt64
  b : UInt64
  c : UInt64
  d : UInt64
  e : UInt64
  f : UInt64
  g : UInt64
  h : UInt64

/-- Fractional parts of the square roots of the first eight primes. -/
def initial : State :=
  ⟨0x6a09e667f3bcc908, 0xbb67ae8584caa73b, 0x3c6ef372fe94f82b, 0xa54ff53a5f1d36f1,
   0x510e527fade682d1, 0x9b05688c2b3e6c1f, 0x1f83d9abfb41bd6b, 0x5be0cd19137e2179⟩

/-- Fractional parts of the cube roots of the first eighty primes. -/
def roundConstants : List UInt64 :=
  [0x428a2f98d728ae22, 0x7137449123ef65cd, 0xb5c0fbcfec4d3b2f, 0xe9b5dba58189dbbc,
   0x3956c25bf348b538, 0x59f111f1b605d019, 0x923f82a4af194f9b, 0xab1c5ed5da6d8118,
   0xd807aa98a3030242, 0x12835b0145706fbe, 0x243185be4ee4b28c, 0x550c7dc3d5ffb4e2,
   0x72be5d74f27b896f, 0x80deb1fe3b1696b1, 0x9bdc06a725c71235, 0xc19bf174cf692694,
   0xe49b69c19ef14ad2, 0xefbe4786384f25e3, 0x0fc19dc68b8cd5b5, 0x240ca1cc77ac9c65,
   0x2de92c6f592b0275, 0x4a7484aa6ea6e483, 0x5cb0a9dcbd41fbd4, 0x76f988da831153b5,
   0x983e5152ee66dfab, 0xa831c66d2db43210, 0xb00327c898fb213f, 0xbf597fc7beef0ee4,
   0xc6e00bf33da88fc2, 0xd5a79147930aa725, 0x06ca6351e003826f, 0x142929670a0e6e70,
   0x27b70a8546d22ffc, 0x2e1b21385c26c926, 0x4d2c6dfc5ac42aed, 0x53380d139d95b3df,
   0x650a73548baf63de, 0x766a0abb3c77b2a8, 0x81c2c92e47edaee6, 0x92722c851482353b,
   0xa2bfe8a14cf10364, 0xa81a664bbc423001, 0xc24b8b70d0f89791, 0xc76c51a30654be30,
   0xd192e819d6ef5218, 0xd69906245565a910, 0xf40e35855771202a, 0x106aa07032bbd1b8,
   0x19a4c116b8d2d0c8, 0x1e376c085141ab53, 0x2748774cdf8eeb99, 0x34b0bcb5e19b48a8,
   0x391c0cb3c5c95a63, 0x4ed8aa4ae3418acb, 0x5b9cca4f7763e373, 0x682e6ff3d6b2b8a3,
   0x748f82ee5defb2fc, 0x78a5636f43172f60, 0x84c87814a1f0ab72, 0x8cc702081a6439ec,
   0x90befffa23631e28, 0xa4506cebde82bde9, 0xbef9a3f7b2c67915, 0xc67178f2e372532b,
   0xca273eceea26619c, 0xd186b8c721c0c207, 0xeada7dd6cde0eb1e, 0xf57d4f7fee6ed178,
   0x06f067aa72176fba, 0x0a637dc5a2c898a6, 0x113f9804bef90dae, 0x1b710b35131c471b,
   0x28db77f523047d84, 0x32caab7b40c72493, 0x3c9ebe0a15c9bebc, 0x431d67c49c100d4c,
   0x4cc5d4becb3e42b6, 0x597f299cfc657e2a, 0x5fcb6fab3ad6faec, 0x6c44198c4a475817]

/-! ## Mixing -/

/-- Rotation towards the low bits by a count between 1 and 63. -/
def rotate (x : UInt64) (count : UInt64) : UInt64 := (x >>> count) ||| (x <<< (64 - count))

/-- One round, with the sum of its constant and its word. -/
def round (s : State) (k : UInt64) : State :=
  let choice := (s.e &&& s.f) ^^^ (s.e.complement &&& s.g)
  let majority := (s.a &&& s.b) ^^^ (s.a &&& s.c) ^^^ (s.b &&& s.c)
  let t := s.h + (rotate s.e 14 ^^^ rotate s.e 18 ^^^ rotate s.e 41) + choice + k
  let u := (rotate s.a 28 ^^^ rotate s.a 34 ^^^ rotate s.a 39) + majority
  ⟨t + u, s.a, s.b, s.c, s.d + t, s.e, s.f, s.g⟩

/-- Sixteen consecutive words of a block's schedule. The block itself is the first sixteen. -/
structure Window where
  w0 : UInt64
  w1 : UInt64
  w2 : UInt64
  w3 : UInt64
  w4 : UInt64
  w5 : UInt64
  w6 : UInt64
  w7 : UInt64
  w8 : UInt64
  w9 : UInt64
  w10 : UInt64
  w11 : UInt64
  w12 : UInt64
  w13 : UInt64
  w14 : UInt64
  w15 : UInt64

/-- The word that follows a window in the schedule. -/
def Window.next (w : Window) : UInt64 :=
  w.w0 + (rotate w.w1 1 ^^^ rotate w.w1 8 ^^^ (w.w1 >>> 7)) +
    w.w9 + (rotate w.w14 19 ^^^ rotate w.w14 61 ^^^ (w.w14 >>> 6))

/-- The window that starts one word later. -/
def Window.slide (w : Window) : Window :=
  ⟨w.w1, w.w2, w.w3, w.w4, w.w5, w.w6, w.w7, w.w8, w.w9, w.w10, w.w11, w.w12, w.w13, w.w14,
    w.w15, w.next⟩

/-- The state after a round for each constant, with the words from the start of a window on. -/
def rounds : (constants : List UInt64) → State → Window → State
  | [], s, _ => s
  | k :: constants, s, w => rounds constants (round s (k + w.w0)) w.slide

/-- The state after a block. -/
def compress (s : State) (block : Window) : State :=
  let t := rounds roundConstants s block
  ⟨s.a + t.a, s.b + t.b, s.c + t.c, s.d + t.d, s.e + t.e, s.f + t.f, s.g + t.g, s.h + t.h⟩

/-! ## Messages -/

/-- A message followed by a one bit, zeros and its length in bits, in whole blocks. -/
def pad (message : List UInt8) : List UInt8 :=
  let zeros := (239 - message.length % 128) % 128
  message ++ (0x80 :: (List.replicate zeros 0 ++ bigEndian 16 (8 * message.length)))

/-- The word that eight bytes spell, most significant first. -/
def join (a b c d e f g h : UInt8) : UInt64 :=
  (a.toUInt64 <<< 56) ||| (b.toUInt64 <<< 48) ||| (c.toUInt64 <<< 40) ||| (d.toUInt64 <<< 32) |||
    (e.toUInt64 <<< 24) ||| (f.toUInt64 <<< 16) ||| (g.toUInt64 <<< 8) ||| h.toUInt64

/-- The eight bytes of a word, most significant first, in front of other bytes. -/
def spell (w : UInt64) (rest : List UInt8) : List UInt8 :=
  (w >>> 56).toUInt8 :: (w >>> 48).toUInt8 :: (w >>> 40).toUInt8 :: (w >>> 32).toUInt8 ::
    (w >>> 24).toUInt8 :: (w >>> 16).toUInt8 :: (w >>> 8).toUInt8 :: w.toUInt8 :: rest

/-- The words of bytes that make up whole words. -/
def words : List UInt8 → List UInt64
  | a :: b :: c :: d :: e :: f :: g :: h :: rest => join a b c d e f g h :: words rest
  | _ => []

/-- The blocks of words that make up whole blocks. -/
def blocks : List UInt64 → List Window
  | w0 :: w1 :: w2 :: w3 :: w4 :: w5 :: w6 :: w7 :: w8 :: w9 :: w10 :: w11 :: w12 :: w13 :: w14 ::
      w15 :: rest =>
    ⟨w0, w1, w2, w3, w4, w5, w6, w7, w8, w9, w10, w11, w12, w13, w14, w15⟩ :: blocks rest
  | _ => []

/-- The state after the last block of a message. -/
def final (message : List UInt8) : State := (blocks (words (pad message))).foldl compress initial

/-- The 64 bytes of the digest. -/
def digest (message : List UInt8) : List UInt8 :=
  let s := final message
  [s.a, s.b, s.c, s.d, s.e, s.f, s.g, s.h].foldr spell []

@[simp] theorem length_digest (message : List UInt8) : (digest message).length = 64 := rfl

/-- The first half of the digest. -/
def half (message : List UInt8) : Key := ⟨(digest message).take 32, rfl⟩

end Cosign.Sha512
