import Microtel.Leaf.ReadBack

/-!
A leaf from its initialisation to its release: `microtel_leaf_init` builds the
buffer of an empty store, every public call then takes the buffer of a store to
the buffer of the store's next state, and so does every run of calls.
-/

namespace Microtel.Leaf

open ByteMemory Loop LinkedList

/-! ### Initialisation -/

/-- The bytes of the Resource and the scope. -/
def persistentBytes (c : Config) : Bytes :=
  (c.resource.data.map Kv.attr).flatMap Attr.bytes ++ c.scopeName.data ++ c.scopeVersion.data

/-- The store of a leaf that has just been initialised. -/
def Store.init (c : Config) (usable : Nat) : Store where
  timeMode := c.timeMode.getD .concentratorStamped
  hasClock := c.hasClock
  bootId := c.bootId
  maxAttrs := capOr c.maxAttributesPerSpan 16
  maxEvents := capOr c.maxEventsPerSpan 4
  maxEventAttrs := capOr c.maxAttributesPerEvent 4
  deviceKey := deviceKey c.resource.data c.bootId
  idCounter := 0
  synced := false
  syncUnix := 0
  syncLeaf := 0
  counters := .zero
  resource := c.resource.data.map Kv.attr
  scopeName := c.scopeName.data
  scopeVersion := c.scopeVersion.data
  capacity := usable - persistentSize c
  nextGen := 1
  count := 0
  entry := fun _ => none
  ended := []

section

variable {w ω : Word32} {c : Config} {buf : Mem} {usable : Nat}

theorem configValid_spec (h : configValid c = true) :
    c.resource.readable = true ∧ c.scopeName.readable = true ∧ c.scopeVersion.readable = true ∧
      kvsValid c.resource.data = true ∧
      ∀ kv ∈ c.resource.data, hasReservedPrefix kv = false := by
  unfold configValid at h
  simp only [Bool.and_eq_true, List.all_eq_true, Bool.not_eq_true'] at h
  obtain ⟨⟨⟨⟨-, h1⟩, h2⟩, h3⟩, h4⟩ := h
  refine ⟨h1, h2, h3, ?_, fun kv hkv => (h4 kv hkv).2⟩
  unfold kvsValid
  rw [List.all_eq_true]
  exact fun kv hkv => (h4 kv hkv).1

theorem kvSizes_eq {kvs : List Kv} (h : kvsValid kvs = true) :
    (kvs.map kvSize).sum = ((kvs.map Kv.attr).flatMap Attr.bytes).length := by
  unfold kvsValid at h
  rw [List.all_eq_true] at h
  induction kvs with
  | nil => rfl
  | cons kv kvs ih =>
      have hkv := kvSize_eq (h kv (by simp))
      have hrest := ih fun x hx => h x (by simp [hx])
      simp [hkv, hrest]

theorem persistentSize_eq (h : configValid c = true) :
    persistentSize c = (persistentBytes c).length := by
  obtain ⟨-, hname, hversion, hkvs, -⟩ := configValid_spec h
  have h1 := Slice.data_length_of_readable hname
  have h2 := Slice.data_length_of_readable hversion
  have h3 := kvSizes_eq hkvs
  unfold persistentSize persistentBytes
  rw [List.length_append, List.length_append]
  omega

/-- Packing the Resource is one write. -/
theorem packAt_foldl {kvs : List Kv} (hvalid : kvsValid kvs = true) (st : LeafState) (off : UInt32)
    (hfits : off.toNat + ((kvs.map Kv.attr).flatMap Attr.bytes).length < 2 ^ 32) :
    let r := kvs.foldl (packAt w) (st, off)
    r.1 = { st with
        mem := st.mem.write off.toNat ((kvs.map Kv.attr).flatMap Attr.bytes)
        high := r.1.high } ∧
      r.2.toNat = off.toNat + ((kvs.map Kv.attr).flatMap Attr.bytes).length := by
  induction kvs generalizing st off with
  | nil => simp
  | cons kv kvs ih =>
      have hkv : kvValid kv = true := by
        have hall := List.all_eq_true.mp hvalid
        exact hall kv (by simp)
      have hkvs : kvsValid kvs = true := by
        simp only [kvsValid, List.all_cons, Bool.and_eq_true] at hvalid ⊢
        exact hvalid.2
      have hlen : off.toNat + (kv.attr.bytes.length +
          ((kvs.map Kv.attr).flatMap Attr.bytes).length) < 2 ^ 32 := by
        simpa using hfits
      have hsize : (UInt32.ofNat kv.attr.bytes.length).toNat = kv.attr.bytes.length :=
        Word32.toNat_ofNat_of_lt (by omega)
      have hpack : packAt w (st, off) kv = (st.poke off.toNat kv.attr.bytes,
          w.add off (UInt32.ofNat kv.attr.bytes.length)) := by
        unfold packAt
        dsimp only
        rw [packKv_eq hkv _ _ (by omega)]
      have hoff : (w.add off (UInt32.ofNat kv.attr.bytes.length)).toNat =
          off.toNat + kv.attr.bytes.length := by
        rw [Word32.toNat_add (by omega), hsize]
      dsimp only
      rw [List.foldl_cons, hpack]
      obtain ⟨hst, hend⟩ := ih hkvs (st.poke off.toNat kv.attr.bytes)
        (w.add off (UInt32.ofNat kv.attr.bytes.length)) (by omega)
      refine ⟨?_, ?_⟩
      · rw [hst, hoff]
        simp only [LeafState.poke, List.map_cons, List.flatMap_cons, Mem.write_append]
      · rw [hend, hoff]
        simp only [List.map_cons, List.flatMap_cons, List.length_append]
        omega

/-- Where the Resource ends and the scope name begins. -/
def nameOffset (c : Config) (usable : Nat) : Nat :=
  usable - persistentSize c + ((c.resource.data.map Kv.attr).flatMap Attr.bytes).length

/-- The leaf `microtel_leaf_init` builds over a buffer with `usable` bytes. -/
def initialised (c : Config) (buf : Mem) (usable : Nat) : LeafState :=
  { initState c buf (UInt32.ofNat usable) with
    magic := leafMagic
    mem := buf.write (usable - persistentSize c) (persistentBytes c)
    persistOff := UInt32.ofNat (usable - persistentSize c)
    dataLow := UInt32.ofNat (usable - persistentSize c)
    resourceOff := UInt32.ofNat (usable - persistentSize c)
    resourceCount := UInt32.ofNat c.resource.len
    scopeNameOff := UInt32.ofNat (nameOffset c usable)
    scopeNameLen := UInt32.ofNat c.scopeName.len
    scopeVersionOff := UInt32.ofNat (nameOffset c usable + c.scopeName.len)
    scopeVersionLen := UInt32.ofNat c.scopeVersion.len }

/-- The state before the Resource is packed. -/
def persistStart (st : LeafState) (off count : UInt32) : LeafState :=
  { st with persistOff := off, dataLow := off, resourceOff := off, resourceCount := count }

/-- The scope, written after the Resource. -/
def writeScope (w : Word32) (r : LeafState × UInt32) (c : Config) : LeafState :=
  let st := { r.1 with scopeNameOff := r.2, scopeNameLen := w.cast c.scopeName.len }
  let st := st.poke r.2.toNat c.scopeName.data
  let off := w.add r.2 (w.cast c.scopeName.len)
  let st := { st with scopeVersionOff := off, scopeVersionLen := w.cast c.scopeVersion.len }
  st.poke off.toNat c.scopeVersion.data

theorem writePersistent_split (w : Word32) (st : LeafState) (c : Config) (size : UInt32) :
    writePersistent w st c size =
      writeScope w (c.resource.data.foldl (packAt w)
        (persistStart st (w.sub st.bufSize size) (w.cast c.resource.len),
          w.sub st.bufSize size)) c := by
  unfold writePersistent
  dsimp only
  change writeScope w (c.resource.data.foldl (packAt w)
    (persistStart st (w.sub st.bufSize size) (w.cast c.resource.len), w.sub st.bufSize size)) c = _
  rfl

theorem persistentSize_parts (hvalid : configValid c = true) :
    persistentSize c = ((c.resource.data.map Kv.attr).flatMap Attr.bytes).length +
      c.scopeName.len + c.scopeVersion.len ∧
      24 * c.resource.len ≤ ((c.resource.data.map Kv.attr).flatMap Attr.bytes).length := by
  obtain ⟨hres, hname, hversion, -, -⟩ := configValid_spec hvalid
  have hmany := length_le_packed (c.resource.data.map Kv.attr)
  rw [List.length_map, Slice.data_length_of_readable hres] at hmany
  refine ⟨?_, hmany⟩
  rw [persistentSize_eq hvalid, persistentBytes, List.length_append, List.length_append,
    Slice.data_length_of_readable hname, Slice.data_length_of_readable hversion]

theorem writePersistent_eq (buf : Mem) (usable : Nat) (hvalid : configValid c = true)
    (husable : usable < 2 ^ 32) (hfits : persistentSize c ≤ usable) :
    { writePersistent w (initState c buf (w.cast usable)) c (w.cast (persistentSize c)) with
      magic := leafMagic, high := 0 } = initialised c buf usable := by
  obtain ⟨-, hname, -, hkvs, -⟩ := configValid_spec hvalid
  have hnameLen := Slice.data_length_of_readable hname
  obtain ⟨hlen, hmany⟩ := persistentSize_parts hvalid
  have hbuf : w.cast usable = UInt32.ofNat usable := Word32.cast_eq husable
  have hbufNat : (UInt32.ofNat usable).toNat = usable := Word32.toNat_ofNat_of_lt husable
  have hper : (w.cast (persistentSize c)).toNat = persistentSize c := Word32.toNat_cast (by omega)
  have hoff : w.sub (UInt32.ofNat usable) (w.cast (persistentSize c)) =
      UInt32.ofNat (usable - persistentSize c) := by
    rw [Word32.sub_eq (by omega), hbufNat, hper]
  have hoffNat : (UInt32.ofNat (usable - persistentSize c)).toNat = usable - persistentSize c :=
    Word32.toNat_ofNat_of_lt (by omega)
  have hcount : w.cast c.resource.len = UInt32.ofNat c.resource.len := Word32.cast_eq (by omega)
  have hnl : w.cast c.scopeName.len = UInt32.ofNat c.scopeName.len := Word32.cast_eq (by omega)
  have hvl : w.cast c.scopeVersion.len = UInt32.ofNat c.scopeVersion.len :=
    Word32.cast_eq (by omega)
  have hstart : (initState c buf (UInt32.ofNat usable)).bufSize = UInt32.ofNat usable := rfl
  rw [writePersistent_split, hbuf, hstart, hoff, hcount]
  obtain ⟨hst, hend⟩ := packAt_foldl (w := w) hkvs
    (persistStart (initState c buf (UInt32.ofNat usable)) (UInt32.ofNat (usable - persistentSize c))
      (UInt32.ofNat c.resource.len)) (UInt32.ofNat (usable - persistentSize c)) (by omega)
  generalize c.resource.data.foldl (packAt w) _ = r at hst hend ⊢
  obtain ⟨st₁, off₁⟩ := r
  dsimp only at hst hend ⊢
  rw [hoffNat] at hst hend
  have hoff₁ : off₁ = UInt32.ofNat (nameOffset c usable) := by
    apply UInt32.toNat_inj.mp
    rw [Word32.toNat_ofNat_of_lt (by unfold nameOffset; omega)]
    exact hend
  have hnlNat : (UInt32.ofNat c.scopeName.len).toNat = c.scopeName.len :=
    Word32.toNat_ofNat_of_lt (by omega)
  have hoff₂ : w.add off₁ (UInt32.ofNat c.scopeName.len) =
      UInt32.ofNat (nameOffset c usable + c.scopeName.len) := by
    rw [Word32.add_eq (by omega), hnlNat, hend]
    rfl
  have hoff₂Nat : (w.add off₁ (UInt32.ofNat c.scopeName.len)).toNat =
      off₁.toNat + c.scopeName.data.length := by
    rw [Word32.toNat_add (by omega), hnlNat, hnameLen]
  have hmem : ((st₁.mem.write off₁.toNat c.scopeName.data).write
      (w.add off₁ (UInt32.ofNat c.scopeName.len)).toNat c.scopeVersion.data) =
      buf.write (usable - persistentSize c) (persistentBytes c) := by
    have hst₁ : st₁.mem = buf.write (usable - persistentSize c)
        ((c.resource.data.map Kv.attr).flatMap Attr.bytes) := by
      rw [hst]
      rfl
    rw [hoff₂Nat, hst₁, hend, persistentBytes, List.append_assoc, Mem.write_append,
      Mem.write_append]
  unfold writeScope LeafState.poke initialised
  dsimp only
  rw [hnl, hvl, hmem, hoff₂, hoff₁, hst]
  rfl

/-- `microtel_leaf_init`, with its writes carried out. -/
theorem init_eq (w : Word32) (leaf : LeafState) (leafSize : Nat) (config : Option Config)
    (buffer : Option Mem) (bufferSize : Nat) :
    init w leaf leafSize config buffer bufferSize =
      match config, buffer with
      | some c, some buf =>
          if leafSize < sizeofLeaf ∨ c.structSize < sizeofConfig then (.errArg, leaf, buffer)
          else if !configValid c then (.errArg, leaf, buffer)
          else if min bufferSize maxBuffer < persistentSize c then (.errNoSpace, leaf, buffer)
          else (.ok, initialised c buf (min bufferSize maxBuffer),
            some (initialised c buf (min bufferSize maxBuffer)).mem)
      | _, _ => (.errArg, leaf, buffer) := by
  cases config with
  | none => rfl
  | some c =>
      cases buffer with
      | none => rfl
      | some buf =>
          unfold init
          dsimp only
          by_cases hsizes : leafSize < sizeofLeaf ∨ c.structSize < sizeofConfig
          · rw [if_pos hsizes, if_pos hsizes]
          · rw [if_neg hsizes, if_neg hsizes]
            cases hvalid : configValid c with
            | false => rfl
            | true =>
                simp only [Bool.not_true, Bool.false_eq_true, if_false]
                by_cases hspace : min bufferSize maxBuffer < persistentSize c
                · rw [if_pos hspace, if_pos hspace]
                · rw [if_neg hspace, if_neg hspace]
                  have hmax : maxBuffer = 0xfffffff0 := rfl
                  have hle := Nat.min_le_right bufferSize maxBuffer
                  have hst := writePersistent_eq (w := w) buf
                    (min bufferSize maxBuffer) hvalid (by omega) (by omega)
                  have hmem := congrArg LeafState.mem hst
                  dsimp only at hmem
                  rw [hst, hmem]

/-- A successful initialisation, and what was checked for it. -/
theorem init_ok {leaf st : LeafState} {leafSize : Nat} {config : Option Config}
    {buffer buffer' : Option Mem} {bufferSize : Nat}
    (h : init w leaf leafSize config buffer bufferSize = (.ok, st, buffer')) :
    ∃ c buf, config = some c ∧ buffer = some buf ∧ configValid c = true ∧
      persistentSize c ≤ min bufferSize maxBuffer ∧
      st = initialised c buf (min bufferSize maxBuffer) := by
  rw [init_eq] at h
  cases config with
  | none => simp at h
  | some c =>
      cases buffer with
      | none => simp at h
      | some buf =>
          dsimp only at h
          split at h
          · simp at h
          · split at h
            · simp at h
            · next hvalid =>
              split at h
              · simp at h
              · next hspace =>
                obtain ⟨-, hst, -⟩ := Prod.mk.inj h |>.imp_right Prod.mk.inj
                exact ⟨c, buf, rfl, rfl, by simpa using hvalid, by omega, hst.symm⟩

/-- An initialisation that fails leaves the leaf and the buffer as they were. -/
theorem init_fail {leaf st : LeafState} {leafSize : Nat} {config : Option Config}
    {buffer buffer' : Option Mem} {bufferSize : Nat} {status : Status}
    (h : init w leaf leafSize config buffer bufferSize = (status, st, buffer'))
    (hstatus : status ≠ .ok) : st = leaf ∧ buffer' = buffer := by
  rw [init_eq] at h
  cases config with
  | none =>
      obtain ⟨-, rfl, rfl⟩ := Prod.mk.inj h |>.imp_right Prod.mk.inj
      exact ⟨rfl, rfl⟩
  | some c =>
      cases buffer with
      | none =>
          obtain ⟨-, rfl, rfl⟩ := Prod.mk.inj h |>.imp_right Prod.mk.inj
          exact ⟨rfl, rfl⟩
      | some buf =>
          dsimp only at h
          split at h
          · obtain ⟨-, rfl, rfl⟩ := Prod.mk.inj h |>.imp_right Prod.mk.inj
            exact ⟨rfl, rfl⟩
          · split at h
            · obtain ⟨-, rfl, rfl⟩ := Prod.mk.inj h |>.imp_right Prod.mk.inj
              exact ⟨rfl, rfl⟩
            · split at h
              · obtain ⟨-, rfl, rfl⟩ := Prod.mk.inj h |>.imp_right Prod.mk.inj
                exact ⟨rfl, rfl⟩
              · obtain ⟨rfl, -⟩ := Prod.mk.inj h
                exact absurd rfl hstatus

theorem Store.init_valid (hvalid : configValid c = true) (usable : Nat) :
    (Store.init c usable).Valid := by
  obtain ⟨-, -, -, hkvs, hreserved⟩ := configValid_spec hvalid
  refine ⟨?_, ?_, ?_, List.nodup_nil, ?_, by simp [Store.init], ?_⟩
  · intro s e he
    simp [Store.init] at he
  · intro s e he
    simp [Store.init] at he
  · intro h
    exact absurd rfl h
  · intro s
    simp [Store.init]
  · intro a ha
    obtain ⟨kv, hkv, rfl⟩ := List.mem_map.mp ha
    have hkey := (kvValid_key (List.all_eq_true.mp hkvs kv hkv)).2
    exact ⟨hkey, hreserved kv hkv⟩

theorem initialised_persistent (hvalid : configValid c = true)
    (hmax : usable ≤ maxBuffer) (hfits : persistentSize c ≤ usable) :
    Persistent (initialised c buf usable) (c.resource.data.map Kv.attr) c.scopeName.data
      c.scopeVersion.data := by
  obtain ⟨hres, hname, hversion, -, -⟩ := configValid_spec hvalid
  obtain ⟨hlen, hmany⟩ := persistentSize_parts hvalid
  have hnameLen := Slice.data_length_of_readable hname
  have hversionLen := Slice.data_length_of_readable hversion
  have hresLen := Slice.data_length_of_readable hres
  have hbig : maxBuffer = 0xfffffff0 := rfl
  have hoff : (initialised c buf usable).persistOff.toNat = usable - persistentSize c :=
    Word32.toNat_ofNat_of_lt (by omega)
  have hbuf : (initialised c buf usable).bufSize.toNat = usable :=
    Word32.toNat_ofNat_of_lt (by omega)
  have hnameOff : (initialised c buf usable).scopeNameOff.toNat = nameOffset c usable :=
    Word32.toNat_ofNat_of_lt (by unfold nameOffset; omega)
  have hnl : (initialised c buf usable).scopeNameLen.toNat = c.scopeName.data.length := by
    rw [hnameLen]
    exact Word32.toNat_ofNat_of_lt (by omega)
  have hversionOff : (initialised c buf usable).scopeVersionOff.toNat =
      nameOffset c usable + c.scopeName.len :=
    Word32.toNat_ofNat_of_lt (by unfold nameOffset; omega)
  have hvl : (initialised c buf usable).scopeVersionLen.toNat = c.scopeVersion.data.length := by
    rw [hversionLen]
    exact Word32.toNat_ofNat_of_lt (by omega)
  have hmem : (initialised c buf usable).mem =
      buf.write (usable - persistentSize c) (persistentBytes c) := rfl
  set res := (c.resource.data.map Kv.attr).flatMap Attr.bytes with hresBytes
  have hbytes : persistentBytes c = res ++ (c.scopeName.data ++ c.scopeVersion.data) := by
    rw [persistentBytes, List.append_assoc]
  have hnameAt : nameOffset c usable = usable - persistentSize c + res.length := rfl
  refine ⟨rfl, ?_, ?_, ?_, ?_, ?_, ?_, ?_⟩
  · rw [List.length_map, hresLen]
    exact Word32.toNat_ofNat_of_lt (by omega)
  · have h := Mem.read_write_sub buf (usable - persistentSize c) 0 res.length (persistentBytes c)
      (by rw [hbytes, List.length_append]; omega)
    rw [hoff, hmem]
    rw [Nat.add_zero, List.drop_zero, hbytes, List.take_left' rfl] at h
    rw [hbytes]
    exact h
  · rw [hoff, hnameOff, hnameAt]
    omega
  · have h := Mem.read_write_sub buf (usable - persistentSize c) res.length
      c.scopeName.data.length (persistentBytes c)
      (by rw [hbytes, List.length_append, List.length_append]; omega)
    rw [hnameOff, hnl, hmem, hnameAt]
    rw [hbytes, List.drop_left' rfl, List.take_left' rfl] at h
    rw [hbytes]
    exact h
  · rw [hoff, hversionOff, hnameAt]
    omega
  · have h := Mem.read_write_sub buf (usable - persistentSize c)
      (res ++ c.scopeName.data).length c.scopeVersion.data.length (persistentBytes c)
      (by rw [hbytes]; simp only [List.length_append]; omega)
    have hat : nameOffset c usable + c.scopeName.len =
        usable - persistentSize c + (res ++ c.scopeName.data).length := by
      rw [hnameAt, List.length_append, hnameLen]
      omega
    rw [hversionOff, hvl, hmem, hat]
    rw [hbytes, ← List.append_assoc, List.drop_left' rfl, List.take_length] at h
    rw [hbytes, ← List.append_assoc]
    exact h
  · rw [hoff, hbuf, hnameLen, hversionLen, ← hresBytes]
    omega

theorem initialised_rep (hvalid : configValid c = true) (hmax : usable ≤ maxBuffer)
    (hfits : persistentSize c ≤ usable) :
    Rep (initialised c buf usable) (Store.init c usable) [] (fun _ => []) := by
  have hbig : maxBuffer = 0xfffffff0 := rfl
  have hoff : (initialised c buf usable).persistOff.toNat = usable - persistentSize c :=
    Word32.toNat_ofNat_of_lt (by omega)
  have hbuf : (initialised c buf usable).bufSize.toNat = usable :=
    Word32.toNat_ofNat_of_lt (by omega)
  have hnone : ∀ t, ¬ t < (initialised c buf usable).slotCount := by
    intro t ht
    exact Nat.not_lt_zero _ (UInt16.lt_iff_toNat_lt.mp ht)
  have hunused : ∀ t, ¬ Used (initialised c buf usable) t := fun t h => hnone t h.1
  have A : Arena (initialised c buf usable) [] := by
    refine ⟨by rw [hbuf]; exact hmax, by rw [hoff, hbuf]; omega, ?_, rfl, Nat.zero_le _⟩
    exact Nat.zero_le _
  have H : Heap (initialised c buf usable) [] (fun _ => []) [] := by
    refine ⟨A, fun t ht => absurd ht (hunused t), fun t ht => absurd ht (hunused t), ?_⟩
    intro t o
    simp [Owns]
  exact ⟨H, fun _ _ => rfl, fun t ht => absurd ht (hnone t), fun t ht => absurd ht (hnone t), rfl,
    rfl, rfl, initialised_persistent hvalid hmax hfits, rfl, rfl, rfl, rfl, rfl, hoff⟩

end

end Microtel.Leaf
