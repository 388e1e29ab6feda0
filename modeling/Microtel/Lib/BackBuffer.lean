import Microtel.Lib.Requests

/-!
Buffers that are filled from their end towards their front, in memory that may be refused.
`Prepends` says what a writer puts in front of what is there, and for which of two
reasons it may fail; writers in sequence put their texts the other way round.
-/

namespace BackBuffer

open Requests

variable {α ε β : Type} {answers : Allocator α}

/-! ### The buffer -/

/-- The cells in front of what is written, what is written, and how many requests were made. -/
structure Buffer (α : Type) where
  room : List α := []
  data : List α := []
  requests : Nat := 0

abbrev Writer (α ε : Type) := Buffer α → Except ε (Buffer α)

/-- What is written starts this much earlier, with whatever the cells hold. -/
def Buffer.advance (n : Nat) (b : Buffer α) : Buffer α :=
  { b with
    room := b.room.take (b.room.length - n)
    data := b.room.drop (b.room.length - n) ++ b.data }

/-- A block of `size` cells is asked for, of which the old cells are the first; they are then
moved to its end. -/
def grow (answers : Allocator α) (refused : ε) (capacity : Nat → Nat) (n : Nat) : Writer α ε :=
  fun b =>
    match answers b.requests with
    | none => .error refused
    | some memory =>
        let cells := b.room ++ b.data
        let size := capacity (n + b.data.length)
        let block := cells ++ (List.range (size - cells.length)).map memory
        let moved := block.take (size - cells.length) ++ cells
        .ok { room := moved.take (size - b.data.length), data := b.data,
              requests := b.requests + 1 }

def reserve (answers : Allocator α) (refused : ε) (capacity : Nat → Nat) (n : Nat) : Writer α ε :=
  fun b => do
    let b ← if b.room.length < n then grow answers refused capacity n b else .ok b
    return b.advance n

/-- Writes over the first cells of what is written. -/
def Buffer.store (octets : List α) (b : Buffer α) : Buffer α :=
  { b with data := octets ++ b.data.drop octets.length }

/-- The first `len` cells are moved up by `skip` cells, where what is written starts then. -/
def Buffer.slide (len skip : Nat) (b : Buffer α) : Buffer α :=
  { b with
    room := b.room ++ b.data.take skip
    data := b.data.take len ++ b.data.drop (skip + len) }

/-- Room for `n` cells is made, and something is stored there. -/
def reserveThen (answers : Allocator α) (refused : ε) (capacity : Nat → Nat) (n : Nat)
    (settle : Buffer α → Buffer α) : Writer α ε := fun b => do
  let b ← reserve answers refused capacity n b
  return settle b

def put (answers : Allocator α) (refused : ε) (capacity : Nat → Nat) (octets : List α) :
    Writer α ε := fun b =>
  if octets.length = 0 then .ok b
  else reserveThen answers refused capacity octets.length (Buffer.store octets) b

/-- A text of at most `bound` cells, written before its length is known. -/
def putWithin (answers : Allocator α) (refused : ε) (capacity : Nat → Nat) (bound : Nat)
    (octets : List α) : Writer α ε :=
  reserveThen answers refused capacity bound fun b =>
    (b.store octets).slide octets.length (bound - octets.length)

def done : Writer α ε := .ok

def andThen (first second : Writer α ε) : Writer α ε := fun b => do
  let b ← first b
  second b

/-- The last of the writers first. -/
def lastToFirst : List (Writer α ε) → Writer α ε
  | [] => done
  | w :: ws => andThen (lastToFirst ws) w

/-- A text, and its length in front of it. -/
def measured (header : Nat → Writer α ε) (body : Writer α ε) : Writer α ε := fun b => do
  let b' ← body b
  header (b'.data.length - b.data.length) b'

/-! ### What a writer puts in front -/

/-- The writer puts this text in front when it fits, asking only for what it is granted. It
fails as `refused` when a request is, and as `deep` only where the text does not fit. Said of
buffers that are within the limit afterwards. -/
def Prepends (answers : Allocator α) (limit : Nat) (refused deep : ε) (fits : Prop)
    (w : Writer α ε) (text : List α) : Prop :=
  ∀ b, text.length + b.data.length ≤ limit →
    match w b with
    | .ok b' => fits ∧ b'.data = text ++ b.data ∧ Granted answers b.requests b'.requests
    | .error e => e = refused ∧ Refused answers b.requests ∨ e = deep ∧ ¬fits

variable {limit : Nat} {refused deep : ε} {capacity : Nat → Nat} {fits fits' : Prop}
  {first second w : Writer α ε} {text text' octets : List α} {b b' : Buffer α}

theorem Prepends.ok (h : Prepends answers limit refused deep fits w text)
    (hlimit : text.length + b.data.length ≤ limit) (hok : w b = .ok b') :
    fits ∧ b'.data = text ++ b.data ∧ Granted answers b.requests b'.requests := by
  have hb := h b hlimit
  rwa [hok] at hb

theorem Prepends.error {e : ε} (h : Prepends answers limit refused deep fits w text)
    (hlimit : text.length + b.data.length ≤ limit) (herror : w b = .error e) :
    e = refused ∧ Refused answers b.requests ∨ e = deep ∧ ¬fits := by
  have hb := h b hlimit
  rwa [herror] at hb

theorem Prepends.congr (h : Prepends answers limit refused deep fits w text) (hfits : fits ↔ fits')
    (htext : text = text') : Prepends answers limit refused deep fits' w text' := by
  have heq : fits = fits' := propext hfits
  rwa [← heq, ← htext]

theorem prepends_done : Prepends answers limit refused deep True (done : Writer α ε) [] :=
  fun b _ => ⟨trivial, rfl, .refl b.requests⟩

theorem prepends_andThen (hfirst : Prepends answers limit refused deep fits first text)
    (hsecond : Prepends answers limit refused deep fits' second text') :
    Prepends answers limit refused deep (fits ∧ fits') (andThen first second) (text' ++ text) := by
  intro b hlimit
  rw [List.length_append] at hlimit
  have hshort : text.length + b.data.length ≤ limit := by omega
  cases hb : first b with
  | error e =>
      have hrun : andThen first second b = .error e := by rw [andThen, hb]; rfl
      rw [hrun]
      exact (hfirst.error hshort hb).imp_right (And.imp_right fun hnot hboth => hnot hboth.1)
  | ok b' =>
      have hrun : andThen first second b = second b' := by rw [andThen, hb]; rfl
      rw [hrun]
      obtain ⟨hfits, hdata, hgranted⟩ := hfirst.ok hshort hb
      have hlong : text'.length + b'.data.length ≤ limit := by
        rw [hdata, List.length_append]
        omega
      cases hb' : second b' with
      | error e =>
          rcases hsecond.error hlong hb' with ⟨he, hrefused⟩ | ⟨he, hnot⟩
          · exact .inl ⟨he, hgranted.refused hrefused⟩
          · exact .inr ⟨he, fun hboth => hnot hboth.2⟩
      | ok b'' =>
          obtain ⟨hfits', hdata', hgranted'⟩ := hsecond.ok hlong hb'
          exact ⟨⟨hfits, hfits'⟩, by rw [hdata', hdata, List.append_assoc],
            hgranted.trans hgranted'⟩

/-- Writers that are run from the last to the first leave their texts in order. -/
theorem prepends_lastToFirst {ws : List β} {writer : β → Writer α ε} {texts : β → List α}
    {fit : β → Prop}
    (h : ∀ x ∈ ws, Prepends answers limit refused deep (fit x) (writer x) (texts x)) :
    Prepends answers limit refused deep (∀ x ∈ ws, fit x) (lastToFirst (ws.map writer))
      (ws.flatMap texts) := by
  induction ws with
  | nil => exact prepends_done.congr (by simp) rfl
  | cons x ws ih =>
      have hx := h x List.mem_cons_self
      have hws := ih fun y hy => h y (List.mem_cons_of_mem x hy)
      refine (prepends_andThen hws hx).congr ?_ (List.flatMap_cons).symm
      rw [List.forall_mem_cons, and_comm]

theorem prepends_measured {header : Nat → Writer α ε} {body : Writer α ε} {size : List α}
    (hbody : Prepends answers limit refused deep fits body text)
    (hheader : Prepends answers limit refused deep True (header text.length) size) :
    Prepends answers limit refused deep fits (measured header body) (size ++ text) := by
  intro b hlimit
  rw [List.length_append] at hlimit
  have hshort : text.length + b.data.length ≤ limit := by omega
  cases hb : body b with
  | error e =>
      have hrun : measured header body b = .error e := by rw [measured, hb]; rfl
      rw [hrun]
      exact hbody.error hshort hb
  | ok b' =>
      obtain ⟨hfits, hdata, hgranted⟩ := hbody.ok hshort hb
      have hlong : size.length + b'.data.length ≤ limit := by
        rw [hdata, List.length_append]
        omega
      have hlength : b'.data.length - b.data.length = text.length := by
        rw [hdata, List.length_append]
        omega
      have hrun : measured header body b = header text.length b' := by
        rw [measured, hb, ← hlength]
        rfl
      rw [hrun]
      cases hb' : header text.length b' with
      | error e =>
          rcases hheader.error hlong hb' with ⟨he, hrefused⟩ | ⟨-, hnot⟩
          · exact .inl ⟨he, hgranted.refused hrefused⟩
          · exact absurd trivial hnot
      | ok b'' =>
          obtain ⟨-, hdata', hgranted'⟩ := hheader.ok hlong hb'
          exact ⟨hfits, by rw [hdata', hdata, List.append_assoc], hgranted.trans hgranted'⟩

/-! ### Reserving room -/

theorem grow_spec (answers : Allocator α) (refused : ε) {n : Nat}
    (hcapacity : n + b.data.length ≤ capacity (n + b.data.length)) (hroom : b.room.length < n) :
    match grow answers refused capacity n b with
    | .ok b' => n ≤ b'.room.length ∧ b'.data = b.data ∧
        Granted answers b.requests b'.requests
    | .error e => e = refused ∧ Refused answers b.requests := by
  unfold grow
  cases hanswer : answers b.requests with
  | none => exact ⟨rfl, refused_now hanswer⟩
  | some memory =>
      refine ⟨?_, rfl, granted_one (by rw [hanswer]; rfl)⟩
      simp only [List.length_take, List.length_append, List.length_map, List.length_range]
      omega

/-- Room for `n` cells in front of what is written. -/
theorem reserve_spec (answers : Allocator α) (refused : ε) (n : Nat) (b : Buffer α)
    (hcapacity : n + b.data.length ≤ capacity (n + b.data.length)) :
    match reserve answers refused capacity n b with
    | .ok b' => b'.data.drop n = b.data ∧ n ≤ b'.data.length ∧
        Granted answers b.requests b'.requests
    | .error e => e = refused ∧ Refused answers b.requests := by
  have hadvance : ∀ c : Buffer α, n ≤ c.room.length →
      (c.advance n).data.drop n = c.data ∧ n ≤ (c.advance n).data.length := by
    intro c hc
    have hcells : (c.room.drop (c.room.length - n)).length = n := by
      rw [List.length_drop]
      omega
    refine ⟨List.drop_left' hcells, ?_⟩
    change n ≤ (c.room.drop (c.room.length - n) ++ c.data).length
    rw [List.length_append, hcells]
    omega
  by_cases hroom : b.room.length < n
  · have hgrow := grow_spec answers refused hcapacity hroom
    cases hb : grow answers refused capacity n b with
    | error e =>
        have hrun : reserve answers refused capacity n b = .error e := by
          rw [reserve, if_pos hroom, hb]
          rfl
        rw [hrun]
        rwa [hb] at hgrow
    | ok c =>
        have hrun : reserve answers refused capacity n b = .ok (c.advance n) := by
          rw [reserve, if_pos hroom, hb]
          rfl
        rw [hb] at hgrow
        obtain ⟨hc, hdata, hgranted⟩ := hgrow
        obtain ⟨hdrop, hlength⟩ := hadvance c hc
        rw [hrun]
        exact ⟨hdrop.trans hdata, hlength, hgranted⟩
  · have hrun : reserve answers refused capacity n b = .ok (b.advance n) := by
      rw [reserve, if_neg hroom]
      rfl
    obtain ⟨hdrop, hlength⟩ := hadvance b (by omega)
    rw [hrun]
    exact ⟨hdrop, hlength, .refl b.requests⟩

/-- A text is in front of what was there when it is stored so in the cells reserved for it. -/
theorem prepends_reserveThen {n : Nat} {settle : Buffer α → Buffer α}
    (hcapacity : ∀ m ≤ limit + (n - text.length), m ≤ capacity m)
    (hdata : ∀ c, (settle c).data = text ++ c.data.drop n)
    (hrequests : ∀ c, (settle c).requests = c.requests) :
    Prepends answers limit refused deep True (reserveThen answers refused capacity n settle)
      text := by
  intro b hlimit
  have hreserve := reserve_spec answers refused n b (hcapacity _ (by omega))
  rw [reserveThen]
  cases hb : reserve answers refused capacity n b with
  | error e =>
      rw [hb] at hreserve
      exact Or.inl hreserve
  | ok c =>
      rw [hb] at hreserve
      obtain ⟨hdrop, -, hgranted⟩ := hreserve
      refine And.intro trivial (And.intro ?_ ?_)
      · rw [hdata, hdrop]
      · rwa [hrequests]

theorem prepends_put (hcapacity : ∀ m ≤ limit, m ≤ capacity m) (octets : List α) :
    Prepends answers limit refused deep True (put answers refused capacity octets) octets := by
  intro b hlimit
  by_cases hempty : octets.length = 0
  · have hrun : put answers refused capacity octets b = .ok b := by rw [put, if_pos hempty]
    rw [hrun, List.length_eq_zero_iff.mp hempty]
    exact ⟨trivial, rfl, .refl b.requests⟩
  · have hstored : Prepends answers limit refused deep True
        (reserveThen answers refused capacity octets.length (Buffer.store octets)) octets :=
      prepends_reserveThen (fun m hm => hcapacity m (by omega)) (fun _ => rfl) fun _ => rfl
    rw [put, if_neg hempty]
    exact hstored b hlimit

/-- The text ends up next to what was there, whatever the cells that were reserved hold. -/
theorem slide_store {bound : Nat} (hbound : octets.length ≤ bound) (b : Buffer α) :
    ((b.store octets).slide octets.length (bound - octets.length)).data =
      octets ++ b.data.drop bound := by
  change (octets ++ b.data.drop octets.length).take octets.length ++
      (octets ++ b.data.drop octets.length).drop (bound - octets.length + octets.length) = _
  rw [List.take_left, Nat.sub_add_cancel hbound, List.drop_append, List.drop_drop,
    List.drop_eq_nil_of_le hbound, List.nil_append, Nat.add_sub_cancel' hbound]

theorem prepends_putWithin {bound : Nat} (hcapacity : ∀ m ≤ limit + bound, m ≤ capacity m)
    (hbound : octets.length ≤ bound) :
    Prepends answers limit refused deep True (putWithin answers refused capacity bound octets)
      octets :=
  prepends_reserveThen (fun m hm => hcapacity m (by omega)) (slide_store hbound) fun _ => rfl

end BackBuffer
