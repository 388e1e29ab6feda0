import Microtel.Api.BaggageText

/-!
The baggages a program can build with `FromHeader`, `Set` and `Erase`: their
limits, what `FromHeader` keeps of a header, and that a header carries a baggage
unchanged.
-/

namespace Microtel.Api.Baggage

open Delimited

/-! ### Limits -/

theorem serialisedSize_append (es : List Entry) (e : Entry) :
    serialisedSize (es ++ [e]) = totalWith (serialisedSize es) es.length e.memberBytes := by
  have hcount : ∀ (es : List Entry) (state : Nat × Nat),
      (es.foldl (fun (state : Nat × Nat) entry =>
        (totalWith state.1 state.2 entry.memberBytes, state.2 + 1)) state).2 =
      state.2 + es.length := by
    intro es
    induction es with
    | nil => exact fun state => rfl
    | cons e es ih =>
        intro state
        rw [List.foldl_cons, ih, List.length_cons]
        omega
  unfold serialisedSize
  rw [List.foldl_append, List.foldl_cons, List.foldl_nil, hcount, Nat.zero_add]

/-- The members and a separator between any two. -/
theorem serialisedSize_eq (es : List Entry) :
    serialisedSize es = (es.map Entry.memberBytes).sum + (es.length - 1) := by
  induction es using List.reverseRecOn with
  | nil => rfl
  | append_singleton es e ih =>
      rw [serialisedSize_append, ih, totalWith, kListSeparatorChars]
      simp only [List.map_append, List.map_cons, List.map_nil, List.sum_append, List.sum_cons,
        List.sum_nil, List.length_append, List.length_cons, List.length_nil]
      by_cases hnil : es.length = 0
      · rw [List.length_eq_zero_iff.mp hnil]
        simp
      · rw [if_neg hnil]
        omega

theorem serialisedSize_le_of_sublist {es es' : List Entry} (h : es.Sublist es') :
    serialisedSize es ≤ serialisedSize es' := by
  have hsum := (h.map Entry.memberBytes).sum_le_sum (by simp)
  have hlen := h.length_le
  rw [serialisedSize_eq, serialisedSize_eq]
  omega

/-- What every entry list of a baggage meets. -/
structure Fits (es : List Entry) : Prop where
  formed : ∀ e ∈ es, Formed e
  short : ∀ e ∈ es, e.memberBytes ≤ kMaxEntryBytes
  distinct : (es.map Entry.key).Nodup
  few : es.length ≤ kMaxEntries
  small : serialisedSize es ≤ kMaxTotalBytes

theorem contains_iff (es : List Entry) (key : Bytes) :
    contains es key = true ↔ key ∈ es.map Entry.key := by
  simp [contains]

/-- The three answers of `Admit`. -/
theorem admission_cases (m : Entry) (es : List Entry) :
    (admission m es (serialisedSize es) = .skipped ∧
        (kMaxEntryBytes < m.memberBytes ∨ m.key ∈ es.map Entry.key)) ∨
      (¬ (kMaxEntryBytes < m.memberBytes ∨ m.key ∈ es.map Entry.key) ∧
        ((admission m es (serialisedSize es) = .stopped ∧
            (kMaxEntries < (es ++ [m]).length ∨ kMaxTotalBytes < serialisedSize (es ++ [m]))) ∨
          (admission m es (serialisedSize es) = .accepted ∧
            (es ++ [m]).length ≤ kMaxEntries ∧ serialisedSize (es ++ [m]) ≤ kMaxTotalBytes))) := by
  rw [← contains_iff, serialisedSize_append]
  unfold admission
  split
  · next hlong => exact .inl ⟨rfl, .inl hlong⟩
  · next hshort =>
    split
    · next hcontains => exact .inl ⟨rfl, .inr hcontains⟩
    · next hnew =>
      refine .inr ⟨not_or.mpr ⟨hshort, hnew⟩, ?_⟩
      have hlen : (es ++ [m]).length = es.length + 1 := by simp
      split
      · next hfull => exact .inl ⟨rfl, .inl (by omega)⟩
      · split
        · next hlarge => exact .inl ⟨rfl, .inr hlarge⟩
        · exact .inr ⟨rfl, by omega, by omega⟩

namespace Fits

variable {es : List Entry}

theorem nil : Fits [] where
  formed := by simp
  short := by simp
  distinct := by simp
  few := by simp
  small := by simp [serialisedSize]

theorem sublist {es' : List Entry} (F : Fits es) (h : es'.Sublist es) : Fits es' where
  formed e he := F.formed e (h.subset he)
  short e he := F.short e (h.subset he)
  distinct := F.distinct.sublist (h.map Entry.key)
  few := h.length_le.trans F.few
  small := (serialisedSize_le_of_sublist h).trans F.small

theorem append {m : Entry} (F : Fits es) (hm : Formed m)
    (hnew : ¬ (kMaxEntryBytes < m.memberBytes ∨ m.key ∈ es.map Entry.key))
    (hfew : (es ++ [m]).length ≤ kMaxEntries)
    (hsmall : serialisedSize (es ++ [m]) ≤ kMaxTotalBytes) : Fits (es ++ [m]) := by
  obtain ⟨hshort, hkey⟩ := not_or.mp hnew
  refine ⟨?_, ?_, ?_, hfew, hsmall⟩
  · intro e he
    rcases List.mem_append.mp he with he | he
    · exact F.formed e he
    · rw [List.mem_singleton.mp he]
      exact hm
  · intro e he
    rcases List.mem_append.mp he with he | he
    · exact F.short e he
    · rw [List.mem_singleton.mp he]
      omega
  · rw [List.map_append, List.nodup_append]
    refine ⟨F.distinct, by simp, ?_⟩
    intro key hmem key' hlast heq
    have hlast : key' = m.key := by simpa using hlast
    rw [heq, hlast] at hmem
    exact hkey hmem

end Fits

/-! ### What FromHeader keeps -/

/-- An over-long or duplicate member is dropped alone, any other kept. -/
def keep (kept : List Entry) (m : Entry) : List Entry :=
  if kMaxEntryBytes < m.memberBytes ∨ m.key ∈ kept.map Entry.key then kept else kept ++ [m]

/-- The members `FromHeader` would keep without the limits on the whole list. -/
def survivors (members : List Entry) : List Entry := members.foldl keep []

/-- The list is read up to a member that breaks the count or the total limit. -/
def StopsAt (kept rest : List Entry) : Prop :=
  rest = [] ∨ ∃ m rest', rest = m :: rest' ∧
    (kMaxEntries < (keep kept m).length ∨ kMaxTotalBytes < serialisedSize (keep kept m))

theorem parseMembers_spec (pieces : List Bytes) (kept : List Entry) (F : Fits kept) :
    Fits (parseMembers pieces kept (serialisedSize kept)) ∧
      ∃ read rest, pieces.filterMap parsePiece = read ++ rest ∧
        parseMembers pieces kept (serialisedSize kept) = read.foldl keep kept ∧
        StopsAt (read.foldl keep kept) rest := by
  induction pieces generalizing kept with
  | nil => exact ⟨F, [], [], rfl, rfl, .inl rfl⟩
  | cons piece pieces ih =>
      unfold parseMembers
      cases hpiece : parsePiece piece with
      | none =>
          rw [List.filterMap_cons_none hpiece]
          exact ih kept F
      | some m =>
          rw [List.filterMap_cons_some hpiece]
          dsimp only
          rcases admission_cases m kept with
            ⟨hskip, hdrop⟩ | ⟨hnew, ⟨hstop, hbreaks⟩ | ⟨haccept, hfew, hsmall⟩⟩
          · rw [hskip]
            obtain ⟨hfits, read, rest, hsplit, hkept, hstops⟩ := ih kept F
            have hkeep : keep kept m = kept := if_pos hdrop
            refine ⟨hfits, m :: read, rest, by rw [hsplit]; rfl, ?_, ?_⟩
            · rw [List.foldl_cons, hkeep]
              exact hkept
            · rw [List.foldl_cons, hkeep]
              exact hstops
          · rw [hstop]
            have hkeep : keep kept m = kept ++ [m] := if_neg hnew
            refine ⟨F, [], m :: pieces.filterMap parsePiece, rfl, rfl, .inr ⟨m, _, rfl, ?_⟩⟩
            rw [List.foldl_nil, hkeep]
            exact hbreaks
          · rw [haccept]
            dsimp only
            rw [← serialisedSize_append]
            have F' := F.append (formed_of_parsePiece hpiece) hnew hfew hsmall
            obtain ⟨hfits, read, rest, hsplit, hkept, hstops⟩ := ih (kept ++ [m]) F'
            have hkeep : keep kept m = kept ++ [m] := if_neg hnew
            refine ⟨hfits, m :: read, rest, by rw [hsplit]; rfl, ?_, ?_⟩
            · rw [List.foldl_cons, hkeep]
              exact hkept
            · rw [List.foldl_cons, hkeep]
              exact hstops

/-! ### The states of a program -/

inductive Reachable : Baggage → Prop
  | default : Reachable {}
  | fromHeader (header : Bytes) : Reachable (fromHeader header)
  | set {b : Baggage} (h : Reachable b) (key value : Bytes) : Reachable (b.set key value)
  | erase {b : Baggage} (h : Reachable b) (key : Bytes) : Reachable (b.erase key)

structure Valid (b : Baggage) : Prop where
  /-- The empty baggage is the null pointer. -/
  sealed : b.impl ≠ some []
  fits : Fits b.list

theorem list_sealed (es : List Entry) : (Baggage.sealed es).list = es := by
  unfold Baggage.sealed
  split
  · next hnil =>
    rw [hnil]
    rfl
  · rfl

theorem Valid.of_fits {es : List Entry} (F : Fits es) : Valid (Baggage.sealed es) := by
  refine ⟨?_, ?_⟩
  · unfold Baggage.sealed
    split
    · simp
    · next hne => simpa using hne
  · rw [list_sealed]
    exact F

theorem get_isSome_iff (b : Baggage) (key : Bytes) :
    (b.get key).isSome = true ↔ key ∈ b.list.map Entry.key := by
  simp [get]

section Replace

variable {candidate : Entry} {es : List Entry}

theorem mem_replaceOrPush (e : Entry) (he : e ∈ replaceOrPush candidate es) :
    e = candidate ∨ e ∈ es := by
  induction es with
  | nil => exact .inl (by simpa [replaceOrPush] using he)
  | cons entry entries ih =>
      unfold replaceOrPush at he
      split at he
      · rcases List.mem_cons.mp he with rfl | he
        · exact .inl rfl
        · exact .inr (by simp [he])
      · rcases List.mem_cons.mp he with rfl | he
        · exact .inr (by simp)
        · rcases ih he with h | h
          · exact .inl h
          · exact .inr (by simp [h])

/-- Under other keys nothing changes. -/
theorem filter_replaceOrPush :
    ((replaceOrPush candidate es).filter fun e => e.key ≠ candidate.key) =
      es.filter fun e => e.key ≠ candidate.key := by
  induction es with
  | nil => simp [replaceOrPush]
  | cons entry entries ih =>
      unfold replaceOrPush
      split
      · next hsame => simp [hsame]
      · next hother =>
        rw [List.filter_cons_of_pos (by simp [hother]), List.filter_cons_of_pos (by simp [hother]),
          ih]

theorem find_replaceOrPush :
    (replaceOrPush candidate es).find? (fun e => e.key = candidate.key) = some candidate := by
  induction es with
  | nil => simp [replaceOrPush]
  | cons entry entries ih =>
      unfold replaceOrPush
      split
      · simp
      · next hother =>
        rw [List.find?_cons_of_neg (by simp [hother])]
        exact ih

theorem keys_replaceOrPush :
    (replaceOrPush candidate es).map Entry.key =
      if candidate.key ∈ es.map Entry.key then es.map Entry.key
      else es.map Entry.key ++ [candidate.key] := by
  induction es with
  | nil => simp [replaceOrPush]
  | cons entry entries ih =>
      unfold replaceOrPush
      split
      · next hsame => simp [hsame]
      · next hother =>
        rw [List.map_cons, ih, List.map_cons]
        by_cases hmem : candidate.key ∈ entries.map Entry.key
        · rw [if_pos hmem, if_pos (List.mem_cons_of_mem _ hmem)]
        · have hnew : candidate.key ∉ entry.key :: entries.map Entry.key := by
            rw [List.mem_cons, not_or]
            exact ⟨Ne.symm hother, hmem⟩
          rw [if_neg hmem, if_neg hnew]
          rfl

theorem Fits.replaceOrPush (F : Fits es) (hcandidate : Formed candidate)
    (hshort : candidate.memberBytes ≤ kMaxEntryBytes)
    (hroom : candidate.key ∈ es.map Entry.key ∨ es.length < kMaxEntries)
    (hsmall : serialisedSize (Baggage.replaceOrPush candidate es) ≤ kMaxTotalBytes) :
    Fits (Baggage.replaceOrPush candidate es) := by
  have hkeys := @keys_replaceOrPush candidate es
  refine ⟨?_, ?_, ?_, ?_, hsmall⟩
  · intro e he
    rcases mem_replaceOrPush e he with rfl | he
    · exact hcandidate
    · exact F.formed e he
  · intro e he
    rcases mem_replaceOrPush e he with rfl | he
    · exact hshort
    · exact F.short e he
  · rw [hkeys]
    split
    · exact F.distinct
    · next hnew =>
      rw [List.nodup_append]
      refine ⟨F.distinct, by simp, ?_⟩
      rintro key hmem key' hlast rfl
      rw [List.mem_singleton.mp hlast] at hmem
      exact hnew hmem
  · rw [← List.length_map Entry.key, hkeys]
    split
    · rw [List.length_map]
      exact F.few
    · next hnew =>
      have hlt := hroom.resolve_left hnew
      simp
      omega

end Replace

/-- The conditions under which `Set` does not refuse. -/
structure Settable (b : Baggage) (key value : Bytes) : Prop where
  token : isToken key = true
  room : key ∈ b.list.map Entry.key ∨ b.size < kMaxEntries
  short : (makeEntry key value []).memberBytes ≤ kMaxEntryBytes
  small : serialisedSize (replaceOrPush (makeEntry key value []) b.list) ≤ kMaxTotalBytes

section

variable {b : Baggage} {key value : Bytes}

theorem set_of_settable (h : Settable b key value) :
    b.set key value = Baggage.sealed (replaceOrPush (makeEntry key value []) b.list) := by
  have hfits : (!(b.get key).isSome && decide (kMaxEntries ≤ b.size)) = false := by
    rcases h.room with hmem | hlt
    · rw [(get_isSome_iff b key).mpr hmem]
      rfl
    · have hnot : ¬ kMaxEntries ≤ b.size := by omega
      simp [hnot]
  have hshort := h.short
  have hsmall := h.small
  unfold set
  dsimp only
  rw [hfits, h.token, if_neg (by simp), if_neg (by omega), if_neg (by omega)]

theorem set_refused (h : ¬ Settable b key value) : b.set key value = b := by
  unfold set
  dsimp only
  split
  · rfl
  · next hpass =>
    rw [Bool.not_eq_true, Bool.or_eq_false_iff, Bool.not_eq_false'] at hpass
    split
    · rfl
    · next hshort =>
      split
      · rfl
      · next hsmall =>
        refine absurd ⟨hpass.1, ?_, by omega, by omega⟩ h
        rw [← get_isSome_iff]
        rcases Bool.and_eq_false_iff.mp hpass.2 with hmem | hlt
        · rw [Bool.not_eq_false'] at hmem
          exact .inl hmem
        · exact .inr (Nat.lt_of_not_le (of_decide_eq_false hlt))

theorem erase_of_mem (h : key ∈ b.list.map Entry.key) :
    b.erase key = Baggage.sealed (b.list.filter fun e => e.key ≠ key) := by
  unfold erase
  rw [(get_isSome_iff b key).mpr h]
  rfl

theorem erase_refused (h : key ∉ b.list.map Entry.key) : b.erase key = b := by
  have hnone : (b.get key).isSome = false := by
    rw [Bool.eq_false_iff, ne_eq, get_isSome_iff]
    exact h
  simp [erase, hnone]

end

theorem Reachable.valid {b : Baggage} (h : Reachable b) : Valid b := by
  induction h with
  | default => exact .of_fits .nil
  | fromHeader header => exact .of_fits (parseMembers_spec _ [] .nil).1
  | @set b _ key value ih =>
      by_cases hset : Settable b key value
      · rw [set_of_settable hset]
        refine .of_fits (ih.fits.replaceOrPush ?_ hset.short hset.room hset.small)
        exact formed_makeEntry hset.token ⟨[], by simp, rfl⟩
      · rw [set_refused hset]
        exact ih
  | @erase b _ key ih =>
      by_cases hmem : key ∈ b.list.map Entry.key
      · rw [erase_of_mem hmem]
        exact .of_fits (ih.fits.sublist List.filter_sublist)
      · rw [erase_refused hmem]
        exact ih

/-! ### The round trip -/

theorem toHeader_eq (b : Baggage) :
    b.toHeader = (b.list.map text).foldl (push kListSeparator) [] := by
  have hstep : appendMember = fun header e => push kListSeparator header (text e) := by
    funext header e
    exact appendMember_eq header e
  rw [List.foldl_map, ← hstep]
  unfold toHeader list
  cases b.impl <;> rfl

namespace Valid

variable {b : Baggage}

theorem length_toHeader (V : Valid b) : b.toHeader.length = serialisedSize b.list := by
  have hne : ∀ piece ∈ b.list.map text, piece ≠ [] := by
    intro piece hpiece
    obtain ⟨e, -, rfl⟩ := List.mem_map.mp hpiece
    exact text_ne_nil e
  have hlengths : (b.list.map text).map List.length = b.list.map Entry.memberBytes := by
    rw [List.map_map]
    exact List.map_congr_left fun e he => (V.fits.formed e he).length_text
  rw [toHeader_eq, length_foldl_push hne, hlengths, serialisedSize_eq, List.length_map]

/-- Members that fit are all kept. -/
theorem survivors_of_fits {es : List Entry} (F : Fits es) : survivors es = es := by
  induction es using List.reverseRecOn with
  | nil => rfl
  | append_singleton es e ih =>
      have hprefix := ih (F.sublist (List.sublist_append_left es [e]))
      unfold survivors at hprefix ⊢
      rw [List.foldl_append, hprefix]
      refine if_neg (not_or.mpr ⟨?_, ?_⟩)
      · have hshort := F.short e (by simp)
        omega
      · have hdistinct := F.distinct
        rw [List.map_append, List.nodup_append] at hdistinct
        intro hmem
        exact hdistinct.2.2 _ hmem _ (by simp) rfl

theorem fromHeader_toHeader (V : Valid b) : fromHeader b.toHeader = b := by
  cases himpl : b.impl with
  | none =>
      have heq : b = {} := by
        cases b
        simpa using himpl
      rw [heq]
      rfl
  | some es =>
      have hlist : b.list = es := by rw [list, himpl]; rfl
      have hne : es ≠ [] := by
        rintro rfl
        exact V.sealed himpl
      have F := V.fits
      rw [hlist] at F
      have hpieces : b.toHeader.splitOn kListSeparator = es.map text := by
        rw [toHeader_eq, hlist]
        refine splitOn_foldl_push (by simpa using hne) ?_ ?_
        · intro piece hpiece
          obtain ⟨e, -, rfl⟩ := List.mem_map.mp hpiece
          exact text_ne_nil e
        · intro piece hpiece
          obtain ⟨e, he, rfl⟩ := List.mem_map.mp hpiece
          exact fun hmem => ((F.formed e he).chars _ hmem).1 rfl
      have hmembers : (es.map text).filterMap parsePiece = es := by
        rw [List.filterMap_map]
        have hsome : ∀ e ∈ es, (parsePiece ∘ text) e = some e := fun e he =>
          (F.formed e he).parsePiece_text
        rw [List.filterMap_congr hsome]
        exact List.filterMap_some
      obtain ⟨-, read, rest, hsplit, hkept, hstops⟩ := parseMembers_spec (es.map text) [] .nil
      rw [hmembers] at hsplit
      -- nothing is left unread: all the members of `es` fit
      have hrest : rest = [] := by
        rcases hstops with hnil | ⟨m, rest', rfl, hbreaks⟩
        · exact hnil
        · have hsub : (read ++ [m]).Sublist es := by
            rw [hsplit]
            exact (List.sublist_append_left [m] rest').append_left read
          have F' := F.sublist hsub
          have hkeep : keep (read.foldl keep []) m = read ++ [m] := by
            have hall := survivors_of_fits F'
            unfold survivors at hall
            rw [List.foldl_append] at hall
            exact hall
          rw [hkeep] at hbreaks
          have hfew := F'.few
          have hsmall := F'.small
          omega
      rw [hrest, List.append_nil] at hsplit
      have hread : read.foldl keep [] = es := by
        rw [← hsplit]
        exact survivors_of_fits F
      have hzero : serialisedSize [] = 0 := rfl
      rw [hzero, hread] at hkept
      rw [fromHeader, hpieces, hkept, Baggage.sealed, if_neg hne]
      cases b
      simpa using himpl.symm

end Valid

/-- The limits and the round trip of every baggage a program can build, what
`Set` and `Erase` change, and what `FromHeader` keeps of any header. -/
theorem reachable_exact :
    (∀ b, Reachable b →
      ((b.list.map Entry.key).Nodup ∧ (∀ e ∈ b.list, isToken e.key = true) ∧
        b.size ≤ kMaxEntries ∧
        (∀ e ∈ b.list, (appendMember [] e).length = e.memberBytes ∧
          e.memberBytes ≤ kMaxEntryBytes) ∧
        b.toHeader.length = serialisedSize b.list ∧ b.toHeader.length ≤ kMaxTotalBytes) ∧
      fromHeader b.toHeader = b ∧
      (∀ key value, ¬ Settable b key value → b.set key value = b) ∧
      (∀ key value, Settable b key value →
        (b.set key value).list = replaceOrPush (makeEntry key value []) b.list ∧
        (b.set key value).get key = some value ∧
        ((b.set key value).list.filter fun e => e.key ≠ key) =
          b.list.filter fun e => e.key ≠ key) ∧
      (∀ key, key ∉ b.list.map Entry.key → b.erase key = b) ∧
      (∀ key ∈ b.list.map Entry.key,
        (b.erase key).list = b.list.filter fun e => e.key ≠ key)) ∧
    ∀ header, ∃ read rest,
      (header.splitOn kListSeparator).filterMap parsePiece = read ++ rest ∧
        (fromHeader header).list = survivors read ∧ StopsAt (survivors read) rest := by
  refine ⟨?_, ?_⟩
  · intro b hb
    have V := hb.valid
    have F := V.fits
    refine ⟨⟨F.distinct, fun e he => (F.formed e he).key, F.few, ?_, V.length_toHeader, ?_⟩,
      V.fromHeader_toHeader, ?_, ?_, ?_, ?_⟩
    · intro e he
      rw [appendMember_eq]
      exact ⟨(F.formed e he).length_text, F.short e he⟩
    · rw [V.length_toHeader]
      exact F.small
    · intro key value h
      exact set_refused h
    · intro key value h
      have hlist : (b.set key value).list = replaceOrPush (makeEntry key value []) b.list := by
        rw [set_of_settable h, list_sealed]
      have hfind := @find_replaceOrPush (makeEntry key value []) b.list
      refine ⟨hlist, ?_, ?_⟩
      · rw [get, hlist]
        exact congrArg (Option.map Entry.value) hfind
      · rw [hlist]
        exact @filter_replaceOrPush (makeEntry key value []) b.list
    · intro key h
      exact erase_refused h
    · intro key h
      rw [erase_of_mem h, list_sealed]
  · intro header
    obtain ⟨-, read, rest, hsplit, hkept, hstops⟩ :=
      parseMembers_spec (header.splitOn kListSeparator) [] .nil
    refine ⟨read, rest, hsplit, ?_, hstops⟩
    rw [fromHeader, list_sealed]
    exact hkept

/-- `k = v%20 ;p= x ; q,k=2`. -/
theorem reachable_exact_properties :
    let b :=
      fromHeader [0x6B, 0x20, 0x3D, 0x20, 0x76, 0x25, 0x32, 0x30, 0x20, 0x3B, 0x70, 0x3D, 0x20,
      0x78, 0x20, 0x3B, 0x20, 0x71, 0x2C, 0x6B, 0x3D, 0x32]
    b.list = [⟨[0x6B], [0x76, 0x20], [0x70, 0x3D, 0x78, 0x3B, 0x71], 12⟩] ∧
      fromHeader b.toHeader = b ∧ b.erase [0x6A] = b := by
  intro b
  have hb := reachable_exact.1 b (.fromHeader _)
  exact ⟨by decide +kernel, hb.2.1, hb.2.2.2.2.1 _ (by decide +kernel)⟩

end Microtel.Api.Baggage
