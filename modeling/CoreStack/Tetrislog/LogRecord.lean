import CoreStack.BattleRoyale.Framing
import Mathlib.Data.Int.Notation

/-! # Log records on the wire (`logrecord.c`)

A record is five words and two texts of fixed length. A string of the caller is given
by its bytes before the NUL; `none` is the null pointer.
-/
namespace CoreStack.Tetrislog
open BattleRoyale

def logSourceLength : ℕ := 16
def logMsgLength : ℕ := 256
def logWireSize : ℕ := 292

inductive LogLevel
  | debug
  | info
  | warn
  | error
  deriving DecidableEq, Repr

def LogLevel.code : LogLevel → UInt32
  | .debug => 0
  | .info => 1
  | .warn => 2
  | .error => 3

structure LogRecord where
  timeSec : UInt32
  timeMsec : UInt32
  level : UInt32
  pid : UInt32
  seq : UInt32
  source : Bytes
  message : Bytes
  sourceSized : source.length = logSourceLength
  messageSized : message.length = logMsgLength
  deriving DecidableEq

/-- One datagram of the right size. -/
structure WireBuffer where
  bytes : Bytes
  sized : bytes.length = logWireSize
  deriving DecidableEq

/-- `strncpy` fills up with NUL what the string leaves of the first `dest_size - 1` bytes. -/
def copyFixed (dest : Bytes) (src : Option Bytes) : Bytes :=
  match src with
  | none => dest.set 0 0
  | some src => src.take (dest.length - 1) ++ List.replicate (dest.length - 1 - src.length) 0 ++ [0]

theorem length_copyFixed {dest : Bytes} (h : 0 < dest.length) (src : Option Bytes) :
    (copyFixed dest src).length = dest.length := by
  cases src with
  | none => exact List.length_set
  | some src =>
    simp only [copyFixed,List.length_append,List.length_take,List.length_replicate,List.length_singleton]
    omega

def zeroed (n : ℕ) : Bytes := List.replicate n 0

theorem length_zeroed (n : ℕ) : (zeroed n).length = n := List.length_replicate

theorem length_copyFixed_zeroed {n : ℕ} (h : 0 < n) (src : Option Bytes) : (copyFixed (zeroed n) src).length = n := by
  rw [length_copyFixed (by rwa [length_zeroed]),length_zeroed]

/-! ## Packing -/

def LogRecord.fields (record : LogRecord) : Bytes :=
  htonl record.timeSec ++ htonl record.timeMsec ++ htonl record.level ++ htonl record.pid ++ htonl record.seq

theorem LogRecord.length_fields (record : LogRecord) : record.fields.length = 20 := by
  simp [LogRecord.fields]

def packLogRecord (record : LogRecord) : WireBuffer where
  bytes := record.fields ++ record.source ++ record.message
  sized := by
    rw [List.length_append,List.length_append,record.length_fields,record.sourceSized,record.messageSized]
    rfl

/-- The word at an offset. -/
def wordAt (bytes : Bytes) (offset : ℕ) : UInt32 := ntohl ((bytes.drop offset).take 4)

/-- The text at an offset, its last byte forced to NUL. -/
def textAt (bytes : Bytes) (offset length : ℕ) : Bytes := ((bytes.drop offset).take length).set (length - 1) 0

theorem length_textAt {bytes : Bytes} {offset length : ℕ} (h : offset + length ≤ bytes.length) :
    (textAt bytes offset length).length = length := by
  simp only [textAt,List.length_set,List.length_take,List.length_drop]
  omega

def unpackLogRecord (buffer : WireBuffer) : LogRecord where
  timeSec := wordAt buffer.bytes 0
  timeMsec := wordAt buffer.bytes 4
  level := wordAt buffer.bytes 8
  pid := wordAt buffer.bytes 12
  seq := wordAt buffer.bytes 16
  source := textAt buffer.bytes 20 logSourceLength
  message := textAt buffer.bytes 36 logMsgLength
  sourceSized := length_textAt (by rw [buffer.sized]; decide)
  messageSized := length_textAt (by rw [buffer.sized]; decide)

theorem wordAt_append {pre rest : Bytes} {n : ℕ} (word : UInt32) (h : pre.length = n) :
    wordAt (pre ++ (htonl word ++ rest)) n = word := by
  subst h
  rw [wordAt,List.drop_left,List.take_left' (length_htonl word),ntohl_htonl]

theorem unpack_pack (record : LogRecord) :
    (unpackLogRecord (packLogRecord record)).pid = record.pid ∧
    (unpackLogRecord (packLogRecord record)).seq = record.seq := by
  constructor
  · have h : (packLogRecord record).bytes =
        (htonl record.timeSec ++ htonl record.timeMsec ++ htonl record.level) ++
          (htonl record.pid ++ (htonl record.seq ++ record.source ++ record.message)) := by
      simp only [packLogRecord,LogRecord.fields,List.append_assoc]
    change wordAt (packLogRecord record).bytes 12 = record.pid
    rw [h]
    exact wordAt_append record.pid (by simp)
  · have h : (packLogRecord record).bytes =
        (htonl record.timeSec ++ htonl record.timeMsec ++ htonl record.level ++ htonl record.pid) ++
          (htonl record.seq ++ (record.source ++ record.message)) := by
      simp only [packLogRecord,LogRecord.fields,List.append_assoc]
    change wordAt (packLogRecord record).bytes 16 = record.seq
    rw [h]
    exact wordAt_append record.seq (by simp)

/-! ## Building -/

structure Timespec where
  tvSec : ℤ
  tvNsec : ℕ

/-- The record, and the next value of the process's counter `next_seq`. -/
def buildLogRecord (nextSeq : UInt32) (ts : Timespec) (pid : UInt32) (level : LogLevel) (source message : Option Bytes) :
    LogRecord × UInt32 :=
  ({ timeSec := UInt32.ofInt ts.tvSec
     timeMsec := UInt32.ofNat (ts.tvNsec / 1000000)
     level := level.code
     pid := pid
     seq := nextSeq
     source := copyFixed (zeroed logSourceLength) source
     message := copyFixed (zeroed logMsgLength) message
     sourceSized := length_copyFixed_zeroed (by decide) source
     messageSized := length_copyFixed_zeroed (by decide) message },nextSeq + 1)

end CoreStack.Tetrislog
