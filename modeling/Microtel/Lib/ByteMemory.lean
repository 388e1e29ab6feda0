import Mathlib.Tactic

/-!
A byte-addressed memory with range reads and writes, and fixed-size record
layouts over it. Nothing here bounds the memory: a client states its own
bounds and reasons about them through `AgreeOn`, the frame relation "these two
memories hold the same bytes on this interval".
-/

namespace ByteMemory

structure Mem where
  byte : Nat → UInt8

namespace Mem

def read (m : Mem) (off n : Nat) : List UInt8 :=
  (List.range n).map fun i => m.byte (off + i)

def write (m : Mem) (off : Nat) (bs : List UInt8) : Mem :=
  ⟨fun a => if off ≤ a then bs.getD (a - off) (m.byte a) else m.byte a⟩

@[simp] theorem read_length (m : Mem) (off n : Nat) : (m.read off n).length = n := by
  simp [read]

@[simp] theorem read_zero (m : Mem) (off : Nat) : m.read off 0 = [] := rfl

theorem read_getElem? (m : Mem) (off n i : Nat) :
    (m.read off n)[i]? = if i < n then some (m.byte (off + i)) else none := by
  unfold read
  split
  · next h => simp [List.getElem?_range h]
  · next h => simp; omega

theorem read_add (m : Mem) (off a b : Nat) :
    m.read off (a + b) = m.read off a ++ m.read (off + a) b := by
  simp [read, List.range_add, Nat.add_assoc]

theorem read_take (m : Mem) (off n k : Nat) (h : k ≤ n) :
    (m.read off n).take k = m.read off k := by
  obtain ⟨d, rfl⟩ := Nat.exists_eq_add_of_le h
  rw [read_add, List.take_left' (read_length m off k)]

theorem read_drop (m : Mem) (off n k : Nat) (h : k ≤ n) :
    (m.read off n).drop k = m.read (off + k) (n - k) := by
  obtain ⟨d, rfl⟩ := Nat.exists_eq_add_of_le h
  rw [read_add, List.drop_left' (read_length m off k)]
  simp

/-- Both memories hold the same bytes on `[lo, hi)`. -/
def AgreeOn (m m' : Mem) (lo hi : Nat) : Prop :=
  ∀ a, lo ≤ a → a < hi → m.byte a = m'.byte a

theorem AgreeOn.refl (m : Mem) (lo hi : Nat) : AgreeOn m m lo hi :=
  fun _ _ _ => rfl

theorem AgreeOn.trans {m m' m'' : Mem} {lo hi : Nat}
    (h : AgreeOn m m' lo hi) (h' : AgreeOn m' m'' lo hi) : AgreeOn m m'' lo hi :=
  fun a hlo hhi => (h a hlo hhi).trans (h' a hlo hhi)

theorem AgreeOn.mono {m m' : Mem} {lo hi lo' hi' : Nat} (h : AgreeOn m m' lo hi)
    (hlo : lo ≤ lo') (hhi : hi' ≤ hi) : AgreeOn m m' lo' hi' :=
  fun a h1 h2 => h a (by omega) (by omega)

theorem AgreeOn.read {m m' : Mem} {off n : Nat} (h : AgreeOn m m' off (off + n)) :
    m.read off n = m'.read off n := by
  unfold Mem.read
  apply List.map_congr_left
  intro i hi
  have : i < n := List.mem_range.mp hi
  exact h (off + i) (by omega) (by omega)

theorem write_byte_of_lt {m : Mem} {off a : Nat} {bs : List UInt8} (h : a < off) :
    (m.write off bs).byte a = m.byte a := by
  simp [write, Nat.not_le.mpr h]

theorem write_byte_of_ge {m : Mem} {off a : Nat} {bs : List UInt8}
    (h : off + bs.length ≤ a) : (m.write off bs).byte a = m.byte a := by
  have hlen : bs.length ≤ a - off := by omega
  simp [write, List.getD_eq_getElem?_getD, List.getElem?_eq_none hlen]

theorem write_byte_of_mem {m : Mem} {off i : Nat} {bs : List UInt8} (h : i < bs.length) :
    (m.write off bs).byte (off + i) = bs[i] := by
  simp [write, List.getD_eq_getElem?_getD, List.getElem?_eq_getElem h]

/-- A write leaves every interval on either side of it alone. -/
theorem write_agreeOn (m : Mem) (off : Nat) (bs : List UInt8) {lo hi : Nat}
    (h : hi ≤ off ∨ off + bs.length ≤ lo) : AgreeOn (m.write off bs) m lo hi := by
  intro a hlo hhi
  rcases h with h | h
  · exact write_byte_of_lt (by omega)
  · exact write_byte_of_ge (by omega)

theorem read_write_sub (m : Mem) (off i n : Nat) (bs : List UInt8)
    (h : i + n ≤ bs.length) : (m.write off bs).read (off + i) n = (bs.drop i).take n := by
  apply List.ext_getElem?
  intro k
  rw [read_getElem?]
  split
  · next hk =>
    have hb : i + k < bs.length := by omega
    rw [Nat.add_assoc, write_byte_of_mem hb]
    simp [hk, List.getElem?_eq_getElem hb]
  · next hk => simp [hk]

theorem read_write (m : Mem) (off : Nat) (bs : List UInt8) :
    (m.write off bs).read off bs.length = bs := by
  have h := read_write_sub m off 0 bs.length bs (by omega)
  simpa using h

@[simp] theorem write_nil (m : Mem) (off : Nat) : m.write off [] = m := by
  cases m
  simp [write]

/-- Two adjacent writes are one write of the concatenation. -/
theorem write_append (m : Mem) (off : Nat) (as bs : List UInt8) :
    m.write off (as ++ bs) = (m.write off as).write (off + as.length) bs := by
  have hbyte : ∀ a, (m.write off (as ++ bs)).byte a =
      ((m.write off as).write (off + as.length) bs).byte a := by
    intro a
    by_cases h1 : a < off
    · rw [write_byte_of_lt h1, write_byte_of_lt (by omega), write_byte_of_lt h1]
    · by_cases h2 : a < off + as.length
      · obtain ⟨i, rfl⟩ := Nat.exists_eq_add_of_le (Nat.not_lt.mp h1)
        have hi : i < as.length := by omega
        rw [write_byte_of_lt h2, write_byte_of_mem hi,
          write_byte_of_mem (by simp; omega), List.getElem_append_left hi]
      · by_cases h3 : a < off + as.length + bs.length
        · obtain ⟨i, rfl⟩ := Nat.exists_eq_add_of_le (Nat.not_lt.mp h2)
          have hi : i < bs.length := by omega
          rw [write_byte_of_mem hi, Nat.add_assoc, write_byte_of_mem (by simp; omega),
            List.getElem_append_right (by omega)]
          simp
        · rw [write_byte_of_ge (by simp; omega), write_byte_of_ge (by omega),
            write_byte_of_ge (by omega)]
  have hfun : (m.write off (as ++ bs)).byte = ((m.write off as).write (off + as.length) bs).byte :=
    funext hbyte
  cases hl : m.write off (as ++ bs)
  cases hr : (m.write off as).write (off + as.length) bs
  simp_all

end Mem

/-- How a value of `α` lies in `size` consecutive bytes. -/
structure Layout (α : Type) where
  size : Nat
  enc : α → List UInt8
  dec : List UInt8 → α
  enc_length : ∀ a, (enc a).length = size
  dec_enc : ∀ a, dec (enc a) = a

namespace Layout

variable {α β : Type}

def pair (A : Layout α) (B : Layout β) : Layout (α × β) where
  size := A.size + B.size
  enc p := A.enc p.1 ++ B.enc p.2
  dec bs := (A.dec (bs.take A.size), B.dec (bs.drop A.size))
  enc_length p := by simp [A.enc_length, B.enc_length]
  dec_enc p := by
    rw [List.take_left' (A.enc_length p.1), List.drop_left' (A.enc_length p.1),
      A.dec_enc, B.dec_enc]

/-- The layout of `β` through a representation `f` in a type already laid out. -/
def via (A : Layout α) (f : β → α) (g : α → β) (h : ∀ b, g (f b) = b) : Layout β where
  size := A.size
  enc b := A.enc (f b)
  dec bs := g (A.dec bs)
  enc_length b := A.enc_length (f b)
  dec_enc b := by rw [A.dec_enc, h]

/-- The `n` low bytes of a number, least significant first. -/
def leBytes : Nat → Nat → List UInt8
  | 0, _ => []
  | n + 1, v => UInt8.ofNat v :: leBytes n (v / 256)

def ofLeBytes : List UInt8 → Nat
  | [] => 0
  | b :: bs => b.toNat + 256 * ofLeBytes bs

@[simp] theorem leBytes_length (n v : Nat) : (leBytes n v).length = n := by
  induction n generalizing v with
  | zero => rfl
  | succ n ih => simp [leBytes, ih]

theorem ofLeBytes_leBytes (n v : Nat) : ofLeBytes (leBytes n v) = v % 256 ^ n := by
  induction n generalizing v with
  | zero => simp [leBytes, ofLeBytes, Nat.mod_one]
  | succ n ih =>
      have hpow : v % 256 ^ (n + 1) = v % 256 + 256 * (v / 256 % 256 ^ n) := by
        rw [Nat.pow_succ', Nat.mod_mul]
      rw [hpow, leBytes, ofLeBytes, ih, UInt8.toNat_ofNat']

def u8 : Layout UInt8 where
  size := 1
  enc x := [x]
  dec bs := bs.headD 0
  enc_length _ := rfl
  dec_enc _ := rfl

def u16 : Layout UInt16 where
  size := 2
  enc x := leBytes 2 x.toNat
  dec bs := UInt16.ofNat (ofLeBytes bs)
  enc_length x := leBytes_length 2 x.toNat
  dec_enc x := by
    rw [ofLeBytes_leBytes, Nat.mod_eq_of_lt (by simpa using x.toNat_lt)]
    simp

def u32 : Layout UInt32 where
  size := 4
  enc x := leBytes 4 x.toNat
  dec bs := UInt32.ofNat (ofLeBytes bs)
  enc_length x := leBytes_length 4 x.toNat
  dec_enc x := by
    rw [ofLeBytes_leBytes, Nat.mod_eq_of_lt (by simpa using x.toNat_lt)]
    simp

def u64 : Layout UInt64 where
  size := 8
  enc x := leBytes 8 x.toNat
  dec bs := UInt64.ofNat (ofLeBytes bs)
  enc_length x := leBytes_length 8 x.toNat
  dec_enc x := by
    rw [ofLeBytes_leBytes, Nat.mod_eq_of_lt (by simpa using x.toNat_lt)]
    simp

/-- A fixed-length byte array. -/
def bytes (n : Nat) : Layout (Vector UInt8 n) where
  size := n
  enc v := v.toList
  dec bs := Vector.ofFn fun i => bs.getD i 0
  enc_length v := by simp
  dec_enc v := by
    ext i hi
    simp

/-- Padding: written as zero and ignored. -/
def pad (n : Nat) : Layout Unit where
  size := n
  enc _ := List.replicate n 0
  dec _ := ()
  enc_length _ := by simp
  dec_enc _ := rfl

end Layout

namespace Mem

variable {α : Type}

def get (L : Layout α) (m : Mem) (off : Nat) : α :=
  L.dec (m.read off L.size)

theorem get_congr (L : Layout α) {m m' : Mem} {off : Nat}
    (h : AgreeOn m m' off (off + L.size)) : m.get L off = m'.get L off := by
  unfold get
  rw [h.read]

theorem get_congr_read (L : Layout α) {m m' : Mem} {off off' : Nat}
    (h : m.read off L.size = m'.read off' L.size) : m.get L off = m'.get L off' := by
  unfold get
  rw [h]

theorem get_write_enc (L : Layout α) (m : Mem) (off : Nat) (a : α) :
    (m.write off (L.enc a)).get L off = a := by
  unfold get
  have h := read_write m off (L.enc a)
  rw [L.enc_length] at h
  rw [h, L.dec_enc]

theorem get_of_read_append (L : Layout α) {m : Mem} {off : Nat} {a : α} (rest : List UInt8)
    (h : m.read off (L.size + rest.length) = L.enc a ++ rest) : m.get L off = a := by
  unfold get
  have hread : m.read off L.size = L.enc a := by
    rw [← read_take m off (L.size + rest.length) L.size (by omega), h,
      List.take_left' (L.enc_length a)]
  rw [hread, L.dec_enc]

/-- The bytes at an offset are those of a value of the layout. -/
def Encoded (L : Layout α) (m : Mem) (off : Nat) : Prop :=
  m.read off L.size = L.enc (m.get L off)

theorem encoded_write_enc (L : Layout α) (m : Mem) (off : Nat) (a : α) :
    (m.write off (L.enc a)).Encoded L off := by
  have hread := read_write m off (L.enc a)
  rw [L.enc_length] at hread
  unfold Encoded
  rw [hread, get_write_enc]

theorem Encoded.congr {L : Layout α} {m m' : Mem} {off off' : Nat} (h : m.Encoded L off)
    (hread : m'.read off' L.size = m.read off L.size) : m'.Encoded L off' := by
  unfold Encoded
  rw [hread, get_congr_read L hread]
  exact h

/-- Values whose encodings agree at a byte are encoded by memories that agree there. -/
theorem Encoded.byte_eq {L : Layout α} {m m' : Mem} {off i : Nat} (h : m.Encoded L off)
    (h' : m'.Encoded L off) (hi : i < L.size)
    (henc : (L.enc (m'.get L off))[i]? = (L.enc (m.get L off))[i]?) :
    m'.byte (off + i) = m.byte (off + i) := by
  rw [← h, ← h', read_getElem?, read_getElem?, if_pos hi, if_pos hi] at henc
  exact Option.some.inj henc

end Mem

end ByteMemory
