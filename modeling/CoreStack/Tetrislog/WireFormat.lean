import CoreStack.Tetrislog.LogRecord

/-! # The round trip of log records

Packing and unpacking undo each other but for the last byte of each text, which
`unpack_log_record` forces to NUL.
-/
namespace CoreStack.Tetrislog
open BattleRoyale

/-- Both arrays end in a NUL byte. -/
structure LogRecord.Terminated (record : LogRecord) : Prop where
  source : record.source[logSourceLength - 1]? = some 0
  message : record.message[logMsgLength - 1]? = some 0

/-- The text a `char` array holds. -/
def cText (array : Bytes) : Bytes := array.takeWhile (· != 0)

/-! ## From the record to the wire and back -/

theorem textAt_append {pre text rest : Bytes} {offset length : ℕ} (hpre : pre.length = offset)
    (htext : text.length = length) : textAt (pre ++ (text ++ rest)) offset length = text.set (length - 1) 0 := by
  subst hpre htext
  rw [textAt,List.drop_left,List.take_left]

theorem set_of_getElem? {bytes : Bytes} {i : ℕ} {b : UInt8} (h : bytes[i]? = some b) : bytes.set i b = bytes := by
  obtain ⟨hi,rfl⟩ := List.getElem?_eq_some_iff.mp h
  exact List.set_getElem_self hi

theorem pack_bytes (record : LogRecord) : (packLogRecord record).bytes =
    htonl record.timeSec ++ (htonl record.timeMsec ++ (htonl record.level ++ (htonl record.pid ++
      (htonl record.seq ++ (record.source ++ record.message))))) := by
  simp only [packLogRecord,LogRecord.fields,List.append_assoc]

/-- Unpacking finds each word where packing put it, and each text with its last byte cleared. -/
theorem unpack_pack_fields (record : LogRecord) :
    (unpackLogRecord (packLogRecord record)).timeSec = record.timeSec ∧
    (unpackLogRecord (packLogRecord record)).timeMsec = record.timeMsec ∧
    (unpackLogRecord (packLogRecord record)).level = record.level ∧
    (unpackLogRecord (packLogRecord record)).source = record.source.set (logSourceLength - 1) 0 ∧
    (unpackLogRecord (packLogRecord record)).message = record.message.set (logMsgLength - 1) 0 := by
  have hbytes := pack_bytes record
  have hfields : (packLogRecord record).bytes = record.fields ++ (record.source ++ record.message) :=
    List.append_assoc _ _ _
  have htexts : (packLogRecord record).bytes = (record.fields ++ record.source) ++ (record.message ++ []) := by
    rw [List.append_nil]
    rfl
  refine ⟨?_,?_,?_,?_,?_⟩
  · change wordAt (packLogRecord record).bytes 0 = _
    rw [hbytes,← List.nil_append (htonl record.timeSec ++ _)]
    exact wordAt_append record.timeSec rfl
  · change wordAt (packLogRecord record).bytes 4 = _
    rw [hbytes]
    exact wordAt_append record.timeMsec (length_htonl _)
  · change wordAt (packLogRecord record).bytes 8 = _
    rw [hbytes,← List.append_assoc]
    exact wordAt_append record.level (by simp)
  · change textAt (packLogRecord record).bytes 20 logSourceLength = _
    rw [hfields]
    exact textAt_append record.length_fields record.sourceSized
  · change textAt (packLogRecord record).bytes 36 logMsgLength = _
    rw [htexts]
    exact textAt_append (by rw [List.length_append,record.length_fields,record.sourceSized]; rfl) record.messageSized

theorem unpack_pack_of_terminated {record : LogRecord} (h : record.Terminated) :
    unpackLogRecord (packLogRecord record) = record := by
  obtain ⟨hsec,hmsec,hlevel,hsource,hmessage⟩ := unpack_pack_fields record
  obtain ⟨hpid,hseq⟩ := unpack_pack record
  rw [set_of_getElem? h.source] at hsource
  rw [set_of_getElem? h.message] at hmessage
  generalize unpackLogRecord (packLogRecord record) = r at *
  cases r
  cases record
  simp_all

/-! ## From the wire to the record and back -/

theorem htonl_wordAt {bytes : Bytes} {offset : ℕ} (h : offset + 4 ≤ bytes.length) :
    htonl (wordAt bytes offset) = (bytes.drop offset).take 4 := by
  refine htonl_ntohl ?_
  rw [List.length_take,List.length_drop]
  omega

theorem take_drop_append (bytes : Bytes) (offset m n : ℕ) :
    (bytes.drop offset).take m ++ (bytes.drop (offset + m)).take n = (bytes.drop offset).take (m + n) := by
  rw [List.take_add,List.drop_drop]

theorem fields_unpack (buffer : WireBuffer) : (unpackLogRecord buffer).fields = buffer.bytes.take 20 := by
  have hsized : buffer.bytes.length = 292 := buffer.sized
  simp only [LogRecord.fields,unpackLogRecord]
  rw [htonl_wordAt (by omega),htonl_wordAt (by omega),htonl_wordAt (by omega),htonl_wordAt (by omega),
    htonl_wordAt (by omega)]
  rw [take_drop_append buffer.bytes 0 4 4,take_drop_append buffer.bytes 0 8 4,take_drop_append buffer.bytes 0 12 4,
    take_drop_append buffer.bytes 0 16 4]
  rfl

theorem set_texts (pre source message : Bytes) (hpre : pre.length = 20) (hsource : source.length = 16) :
    pre ++ source.set 15 0 ++ message.set 255 0 = ((pre ++ source ++ message).set 35 0).set 291 0 := by
  have hsplit : (pre ++ source).length = 36 := by rw [List.length_append,hpre,hsource]
  have hfirst : (pre ++ source ++ message).set 35 0 = pre ++ source.set 15 0 ++ message := by
    rw [List.set_append_left _ _ (by omega),List.set_append_right _ _ (by omega),hpre]
  have hlen : (pre ++ source.set 15 0).length = 36 := by rw [List.length_append,List.length_set,hpre,hsource]
  rw [hfirst,List.set_append_right _ _ (by omega),hlen]

theorem pack_unpack (buffer : WireBuffer) :
    (packLogRecord (unpackLogRecord buffer)).bytes =
      (buffer.bytes.set (20 + logSourceLength - 1) 0).set (logWireSize - 1) 0 := by
  have hsized : buffer.bytes.length = 292 := buffer.sized
  have hsplit : buffer.bytes.take 20 ++ (buffer.bytes.drop 20).take 16 ++ (buffer.bytes.drop 36).take 256 =
      buffer.bytes := by
    have htake := take_drop_append buffer.bytes 0
    simp only [List.drop_zero,Nat.zero_add] at htake
    rw [htake 20 16,htake 36 256]
    exact List.take_of_length_le (Nat.le_of_eq hsized)
  have hset := set_texts (buffer.bytes.take 20) ((buffer.bytes.drop 20).take 16) ((buffer.bytes.drop 36).take 256)
    (by rw [List.length_take,hsized]; rfl) (by rw [List.length_take,List.length_drop,hsized]; rfl)
  rw [hsplit] at hset
  change (unpackLogRecord buffer).fields ++ _ ++ _ = _
  rw [fields_unpack]
  exact hset

/-! ## From the caller's strings to the record -/

theorem takeWhile_append_nul {s : Bytes} (h : 0 ∉ s) (rest : Bytes) : cText (s ++ 0 :: rest) = s := by
  have hall : ∀ b ∈ s, (b != 0) = true := by
    intro b hb
    rw [bne_iff_ne]
    rintro rfl
    exact h hb
  rw [cText,List.takeWhile_append_of_pos hall]
  simp

theorem copyFixed_text {n : ℕ} (hn : 0 < n) {src : Option Bytes} (h : 0 ∉ src.getD []) :
    cText (copyFixed (zeroed n) src) = (src.getD []).take (n - 1) ∧ (copyFixed (zeroed n) src)[n - 1]? = some 0 := by
  cases src with
  | none =>
    obtain ⟨m,rfl⟩ := Nat.exists_eq_succ_of_ne_zero (Nat.ne_of_gt hn)
    have hcopy : copyFixed (zeroed (m + 1)) none = zeroed (m + 1) := by
      rw [copyFixed,zeroed,List.set_replicate_self]
    rw [hcopy,zeroed]
    exact ⟨by simp [cText],by simp⟩
  | some src =>
    have hkept : 0 ∉ src.take (n - 1) := fun hb => h (List.mem_of_mem_take hb)
    have hlen : (src.take (n - 1) ++ List.replicate (n - 1 - src.length) (0 : UInt8)).length = n - 1 := by
      rw [List.length_append,List.length_take,List.length_replicate]
      omega
    have hcopy : copyFixed (zeroed n) (some src) =
        src.take (n - 1) ++ List.replicate (n - 1 - src.length) 0 ++ [0] := by
      rw [copyFixed,length_zeroed]
    have hpad : List.replicate (n - 1 - src.length) (0 : UInt8) ++ [0] =
        0 :: List.replicate (n - 1 - src.length) 0 := by
      rw [← List.replicate_succ',List.replicate_succ]
    constructor
    · rw [hcopy,List.append_assoc,hpad]
      exact takeWhile_append_nul hkept _
    · rw [hcopy,List.getElem?_append_right (Nat.le_of_eq hlen),hlen,Nat.sub_self]
      rfl

/-- A built record is terminated, and its texts are the longest prefixes of the strings that fit.
A null pointer counts as the empty string. -/
theorem build_terminated (nextSeq : UInt32) (ts : Timespec) (pid : UInt32) (level : LogLevel)
    {source message : Option Bytes} (hsource : 0 ∉ source.getD []) (hmessage : 0 ∉ message.getD []) :
    (buildLogRecord nextSeq ts pid level source message).1.Terminated ∧
    cText (buildLogRecord nextSeq ts pid level source message).1.source =
      (source.getD []).take (logSourceLength - 1) ∧
    cText (buildLogRecord nextSeq ts pid level source message).1.message =
      (message.getD []).take (logMsgLength - 1) := by
  obtain ⟨hs,hslast⟩ := copyFixed_text (n := logSourceLength) (by decide) hsource
  obtain ⟨hm,hmlast⟩ := copyFixed_text (n := logMsgLength) (by decide) hmessage
  exact ⟨⟨hslast,hmlast⟩,hs,hm⟩

theorem log_record_round_trip :
    (∀ record : LogRecord, record.Terminated → unpackLogRecord (packLogRecord record) = record) ∧
    (∀ buffer : WireBuffer, (packLogRecord (unpackLogRecord buffer)).bytes =
      (buffer.bytes.set (20 + logSourceLength - 1) 0).set (logWireSize - 1) 0) ∧
    ∀ nextSeq ts pid level source message, 0 ∉ source.getD [] → 0 ∉ message.getD [] →
      (buildLogRecord nextSeq ts pid level source message).1.Terminated ∧
      cText (buildLogRecord nextSeq ts pid level source message).1.source =
        (source.getD []).take (logSourceLength - 1) ∧
      cText (buildLogRecord nextSeq ts pid level source message).1.message =
        (message.getD []).take (logMsgLength - 1) :=
  ⟨fun _ => unpack_pack_of_terminated,pack_unpack,
    fun nextSeq ts pid level _ _ => build_terminated nextSeq ts pid level⟩

/-- A source of seventeen bytes is cut to fifteen, and the record survives the wire. -/
theorem long_source_round_trip :
    ∃ record : LogRecord, cText record.source = List.replicate 15 97 ∧ unpackLogRecord (packLogRecord record) = record := by
  have hbuilt := log_record_round_trip.2.2 7 ⟨1,2000000⟩ 42 .warn (some (List.replicate 17 97)) (some [111,107])
    (by decide) (by decide)
  exact ⟨_,hbuilt.2.1,log_record_round_trip.1 _ hbuilt.1⟩

end CoreStack.Tetrislog
