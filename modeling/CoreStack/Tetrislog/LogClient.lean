import CoreStack.Tetrislog.LogRecord

/-! # The log client (`logclient.c`)

A client with its process's counter `next_seq`, and what `push` was given and
`sendto` has taken. Which calls of `sendto` succeed is chosen from outside.
-/
namespace CoreStack.Tetrislog
open BattleRoyale Utils

structure LogClient where
  sock : ℤ
  source : Bytes
  queue : Queue LogRecord 256
  droppedQueueFull : UInt32
  daemonUnreachableWarned : Bool

def logClientInit (sock : ℤ) (sourceName : Option Bytes) : LogClient × Bool :=
  (⟨sock,copyFixed (zeroed logSourceLength) sourceName,Queue.init,0,false⟩,decide (0 ≤ sock))

def LogClient.build (client : LogClient) (nextSeq : UInt32) (ts : Timespec) (pid : UInt32) (level : LogLevel)
    (message : Option Bytes) : LogRecord × UInt32 :=
  buildLogRecord nextSeq ts pid level (some (client.source.takeWhile (· != 0))) message

def LogClient.enqueue (client : LogClient) (record : LogRecord) : LogClient :=
  match client.queue.enqueue record with
  | (queue,true) => { client with queue := queue }
  | (_,false) => { client with droppedQueueFull := client.droppedQueueFull + 1 }

structure Logger where
  client : LogClient
  nextSeq : UInt32
  pushed : List LogRecord
  sent : List LogRecord

def logClientPush (l : Logger) (ts : Timespec) (pid : UInt32) (level : LogLevel) (message : Option Bytes) : Logger :=
  if l.client.sock < 0 then l
  else
    let (record,nextSeq) := l.client.build l.nextSeq ts pid level message
    ⟨l.client.enqueue record,nextSeq,l.pushed ++ [record],l.sent⟩

/-- One pass of the loop of `log_client_drain` with a record at the head of the queue:
it leaves the queue whether it was sent or not. -/
def Logger.sendHead (l : Logger) (record : LogRecord) (taken : Bool) : Logger :=
  let queue := l.client.queue.dequeue.1
  if taken then
    { l with client := { l.client with queue := queue, daemonUnreachableWarned := false }, sent := l.sent ++ [record] }
  else
    { l with client := { l.client with
        queue := queue
        daemonUnreachableWarned := true
        droppedQueueFull := l.client.droppedQueueFull + 1 } }

/-- The loop with `n` passes to go; `taken` answers the calls of `sendto` in order. -/
def drainLoop (taken : ℕ → Bool) : ℕ → Logger → Logger
  | 0, l => l
  | n + 1, l =>
    match l.client.queue.peek with
    | none => l
    | some record => drainLoop (fun i => taken (i + 1)) n (l.sendHead record (taken 0))

def logClientDrain (l : Logger) (maxRecords : ℤ) (taken : ℕ → Bool) : Logger :=
  if l.client.sock < 0 then l else drainLoop taken maxRecords.toNat l

inductive LogCall
  | push (ts : Timespec) (pid : UInt32) (level : LogLevel) (message : Option Bytes)
  | drain (maxRecords : ℤ) (taken : ℕ → Bool)

def Logger.call (l : Logger) : LogCall → Logger
  | .push ts pid level message => logClientPush l ts pid level message
  | .drain maxRecords taken => logClientDrain l maxRecords taken

def Logger.calls (l : Logger) (calls : List LogCall) : Logger := calls.foldl Logger.call l

/-- A process whose other records have taken sequence numbers up to `nextSeq`. -/
def Logger.start (client : LogClient) (nextSeq : UInt32) : Logger := ⟨client,nextSeq,[],[]⟩

/-! ## What becomes of the records pushed -/

/-- Every record pushed was sent, waits, or is counted, the count in 32 bits. -/
structure Accounted (l : Logger) : Prop where
  order : (l.sent ++ l.client.queue.queued).Sublist l.pushed
  count : UInt32.ofNat l.pushed.length =
    UInt32.ofNat l.sent.length + l.client.droppedQueueFull + UInt32.ofNat l.client.queue.queued.length

theorem ofNat_length_concat {α : Type*} (xs : List α) (x : α) :
    UInt32.ofNat (xs ++ [x]).length = UInt32.ofNat xs.length + 1 := by
  rw [List.length_append,List.length_singleton,UInt32.ofNat_add]
  rfl

theorem enqueue_accounted {l : Logger} (h : Accounted l) (record : LogRecord) (nextSeq : UInt32) :
    Accounted ⟨l.client.enqueue record,nextSeq,l.pushed ++ [record],l.sent⟩ := by
  have hcount := h.count
  rcases hres : l.client.queue.enqueue record with ⟨queue,accepted⟩
  have hspec := Queue.enqueue_spec l.client.queue record
  rw [hres] at hspec
  rcases hspec with ⟨rfl,hqueued⟩ | rfl
  · have hclient : l.client.enqueue record = { l.client with queue := queue } := by
      rw [LogClient.enqueue,hres]
    rw [hclient]
    dsimp only at hqueued
    constructor
    · dsimp only
      rw [hqueued,← List.append_assoc]
      exact h.order.append (List.Sublist.refl [record])
    · dsimp only
      rw [hqueued,ofNat_length_concat,ofNat_length_concat,hcount]
      exact UInt32.add_assoc _ _ _
  · have hclient : l.client.enqueue record =
        { l.client with droppedQueueFull := l.client.droppedQueueFull + 1 } := by
      rw [LogClient.enqueue,hres]
    rw [hclient]
    constructor
    · exact h.order.trans (List.sublist_append_left _ _)
    · dsimp only
      rw [ofNat_length_concat,hcount]
      grind

theorem push_accounted {l : Logger} (h : Accounted l) (ts : Timespec) (pid : UInt32) (level : LogLevel)
    (message : Option Bytes) : Accounted (logClientPush l ts pid level message) := by
  unfold logClientPush
  split
  · exact h
  · exact enqueue_accounted h _ _

theorem sendHead_accounted {l : Logger} (h : Accounted l) {record : LogRecord}
    (hpeek : l.client.queue.peek = some record) (taken : Bool) : Accounted (l.sendHead record taken) := by
  have hcount := h.count
  have horder := h.order
  obtain ⟨rest,hqueued⟩ : ∃ rest, l.client.queue.queued = record :: rest := by
    rw [Queue.peek_eq] at hpeek
    exact List.head?_eq_some_iff.mp hpeek
  have hrest : l.client.queue.dequeue.1.queued = rest := by rw [Queue.dequeue_queued,hqueued,List.tail_cons]
  have hlength : UInt32.ofNat l.client.queue.queued.length = UInt32.ofNat rest.length + 1 := by
    rw [hqueued,List.length_cons,UInt32.ofNat_add]
    rfl
  rw [hlength] at hcount
  rw [hqueued] at horder
  cases taken with
  | true =>
    constructor
    · simp only [Logger.sendHead,if_true,hrest]
      rwa [List.append_assoc]
    · simp only [Logger.sendHead,if_true,hrest]
      rw [ofNat_length_concat,hcount]
      grind
  | false =>
    constructor
    · simp only [Logger.sendHead,Bool.false_eq_true,if_false,hrest]
      exact (List.Sublist.append_left (List.sublist_cons_self record rest) l.sent).trans horder
    · simp only [Logger.sendHead,Bool.false_eq_true,if_false,hrest]
      rw [hcount]
      grind

theorem drainLoop_accounted {l : Logger} (h : Accounted l) (n : ℕ) (taken : ℕ → Bool) :
    Accounted (drainLoop taken n l) := by
  induction n generalizing l taken with
  | zero => exact h
  | succ n ih =>
    unfold drainLoop
    split
    · exact h
    · next hpeek => exact ih (sendHead_accounted h hpeek (taken 0)) _

theorem drain_accounted {l : Logger} (h : Accounted l) (maxRecords : ℤ) (taken : ℕ → Bool) :
    Accounted (logClientDrain l maxRecords taken) := by
  unfold logClientDrain
  split
  · exact h
  · exact drainLoop_accounted h _ taken

theorem call_accounted {l : Logger} (h : Accounted l) (call : LogCall) : Accounted (l.call call) := by
  cases call with
  | push ts pid level message => exact push_accounted h ts pid level message
  | drain maxRecords taken => exact drain_accounted h maxRecords taken

theorem calls_accounted {l : Logger} (h : Accounted l) (calls : List LogCall) : Accounted (l.calls calls) := by
  induction calls generalizing l with
  | nil => exact h
  | cons call calls ih => exact ih (call_accounted h call)

theorem init_accounted (sock : ℤ) (sourceName : Option Bytes) (nextSeq : UInt32) :
    Accounted (Logger.start (logClientInit sock sourceName).1 nextSeq) := by
  constructor
  · exact List.Sublist.refl []
  · rfl

/-! ## The calls that push -/

def LogCall.pushes : LogCall → Bool
  | .push _ _ _ _ => true
  | .drain _ _ => false

theorem sendHead_frame (l : Logger) (record : LogRecord) (taken : Bool) :
    (l.sendHead record taken).pushed = l.pushed ∧ (l.sendHead record taken).client.sock = l.client.sock := by
  cases taken <;> exact ⟨rfl,rfl⟩

theorem drainLoop_frame (l : Logger) (n : ℕ) (taken : ℕ → Bool) :
    (drainLoop taken n l).pushed = l.pushed ∧ (drainLoop taken n l).client.sock = l.client.sock := by
  induction n generalizing l taken with
  | zero => exact ⟨rfl,rfl⟩
  | succ n ih =>
    unfold drainLoop
    split
    · exact ⟨rfl,rfl⟩
    · next record _ =>
      obtain ⟨hpushed,hsock⟩ := ih (l.sendHead record (taken 0)) (fun i => taken (i + 1))
      obtain ⟨hpushed',hsock'⟩ := sendHead_frame l record (taken 0)
      exact ⟨hpushed.trans hpushed',hsock.trans hsock'⟩

theorem enqueue_sock (client : LogClient) (record : LogRecord) : (client.enqueue record).sock = client.sock := by
  unfold LogClient.enqueue
  split <;> rfl

theorem call_pushed {l : Logger} (h : 0 ≤ l.client.sock) (call : LogCall) :
    (l.call call).pushed.length = l.pushed.length + [call].countP LogCall.pushes ∧ 0 ≤ (l.call call).client.sock := by
  cases call with
  | push ts pid level message =>
    unfold Logger.call logClientPush
    dsimp only
    rw [if_neg (Int.not_lt.mpr h)]
    refine ⟨by simp [LogCall.pushes],?_⟩
    dsimp only
    rwa [enqueue_sock]
  | drain maxRecords taken =>
    unfold Logger.call logClientDrain
    dsimp only
    rw [if_neg (Int.not_lt.mpr h),(drainLoop_frame l _ taken).1,(drainLoop_frame l _ taken).2]
    exact ⟨by simp [LogCall.pushes],h⟩

theorem calls_pushed {l : Logger} (h : 0 ≤ l.client.sock) (calls : List LogCall) :
    (l.calls calls).pushed.length = l.pushed.length + calls.countP LogCall.pushes := by
  induction calls generalizing l with
  | nil => rfl
  | cons call calls ih =>
    obtain ⟨hpushed,hsock⟩ := call_pushed h call
    have hrest := ih hsock
    rw [hpushed] at hrest
    rw [← List.singleton_append,List.countP_append,← Nat.add_assoc]
    exact hrest

end CoreStack.Tetrislog
