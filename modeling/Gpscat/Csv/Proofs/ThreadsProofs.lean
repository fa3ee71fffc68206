import Gpscat.Csv.Threads
import Gpscat.Csv.Proofs.FileProofs
import Gpscat.Csv.Proofs.FragmentsProofs
import Gpscat.Lib.Proofs.WorkQueueProofs

/-!
# `read_csv`, however its threads are interleaved

The loop of `read_csv` makes the parts that `readParts` lists, so a run of the two threads ends as the
call `readCsv`.
-/

namespace Csv

open Cpp WorkQueue

/-! ## The loop -/

/-- The loop makes the parts of `readParts`, and leaves the same file. -/
theorem produces_readParts (delimiter : Char) (bytes : Nat) (infile : List (Text × Bool)) :
    ∀ (buffer : Text) (processed : Nat) (feof : Bool), ∃ q : ReadLoop,
      (readCsvThreads delimiter bytes).Produces ⟨buffer, processed, feof, infile⟩
        (readParts bytes (bufferUpperLimit bytes) buffer processed feof infile).1 q ∧
      (q.infile, q.feof) =
        (readParts bytes (bufferUpperLimit bytes) buffer processed feof infile).2 := by
  induction infile with
  | nil =>
    intro buffer processed feof
    by_cases hmore : processed < bytes
    · refine ⟨_, .last (by simp only [readCsvThreads, readLoop, if_pos hmore]; rfl), ?_⟩
      simp [readParts, hmore]
    · refine ⟨_, .last (by simp only [readCsvThreads, readLoop, if_neg hmore]; rfl), ?_⟩
      simp [readParts, hmore]
  | cons line infile ih =>
    intro buffer processed feof
    by_cases hmore : processed < bytes
    · by_cases hfull : 9 * bufferUpperLimit bytes ≤
          10 * (buffer ++ line.1.takeWhile (· ≠ '\x00')).length
      · obtain ⟨q, hprod, hq⟩ := ih [] (processed + (buffer ++ line.1.takeWhile (· ≠ '\x00')).length)
          line.2
        rw [readParts, if_pos hmore]
        simp only [if_pos hfull]
        refine ⟨q, .item ?_ hprod, hq⟩
        simp only [readCsvThreads, readLoop, if_pos hmore, if_pos hfull]
      · obtain ⟨q, hprod, hq⟩ := ih (buffer ++ line.1.takeWhile (· ≠ '\x00')) processed line.2
        rw [readParts, if_pos hmore]
        simp only [if_neg hfull]
        refine ⟨q, .go ?_ hprod, hq⟩
        simp only [readCsvThreads, readLoop, if_pos hmore, if_neg hfull]
    · rw [readParts, if_neg hmore]
      refine ⟨⟨buffer, processed, feof, line :: infile⟩, .last ?_, rfl⟩
      simp only [readCsvThreads, readLoop, if_neg hmore]

/-- Nothing of the file is lost between the parts. -/
theorem flatten_readParts {bytes limit : Nat} {infile : List (Text × Bool)}
    (hnul : ∀ line ∈ infile, '\x00' ∉ line.1) (buffer : Text) (processed : Nat) (feof : Bool) :
    (readParts bytes limit buffer processed feof infile).1.flatten ++
        unread (readParts bytes limit buffer processed feof infile).2.1 =
      buffer ++ unread infile := by
  induction infile generalizing buffer processed feof with
  | nil => simp [readParts, unread]
  | cons line infile ih =>
    have hline := takeWhile_nul (hnul line List.mem_cons_self)
    have hrest := ih fun line' hline' => hnul line' (List.mem_cons_of_mem _ hline')
    have hcons : unread (line :: infile) = line.1 ++ unread infile := rfl
    rw [readParts]
    dsimp only
    rw [hline, hcons, ← List.append_assoc]
    split_ifs
    · rw [List.flatten_cons, List.append_assoc, hrest, List.nil_append]
    · exact hrest _ _ _
    · simp [hcons]

/-- Every line that is read shortens the file. -/
theorem ranked_readLoop (delimiter : Char) (bytes : Nat) :
    Ranked (readCsvThreads delimiter bytes) fun st => st.infile.length := by
  intro st
  obtain ⟨buffer, processed, feof, infile⟩ := st
  simp only [readCsvThreads, readLoop]
  split_ifs with hmore
  · cases infile with
    | nil => trivial
    | cons line infile =>
      dsimp only
      split_ifs <;> exact Nat.lt_succ_self _
  · trivial

/-- At most nine tenths of the buffer are used. -/
def ReadLoop.HasRoom (bytes : Nat) (st : ReadLoop) : Prop :=
  10 * st.buffer.length ≤ 9 * bufferUpperLimit bytes

theorem readLoop_hasRoom (delimiter : Char) (bytes : Nat) (st : ReadLoop) (h : st.HasRoom bytes) :
    ((readCsvThreads delimiter bytes).produce st).next.HasRoom bytes := by
  obtain ⟨buffer, processed, feof, infile⟩ := st
  simp only [readCsvThreads, readLoop]
  split_ifs with hmore
  · cases infile with
    | nil => exact h
    | cons line infile =>
      dsimp only
      split_ifs with hfull
      · exact Nat.zero_le _
      · exact (not_le.mp hfull).le
  · exact h

/-! ## The threads -/

section Threads

variable {r : FileReader} {infile : List (Text × Bool)} {bytes : Nat}
  {run : List (System.Action × State ReadLoop Text CSVReader)} {t : State ReadLoop Text CSVReader}

theorem run_inv (hrun : (readCsvThreads r.delimiter bytes).Run (r.startThreads infile) run t) :
    ∃ q : ReadLoop,
      (q.infile, q.feof) = (readParts bytes (bufferUpperLimit bytes) [] 0 false infile).2 ∧
      Inv (readCsvThreads r.delimiter bytes) r.reader (fileParts bytes infile) q t := by
  obtain ⟨q, hprod, hq⟩ := produces_readParts r.delimiter bytes infile [] 0 false
  exact ⟨q, hq, (Inv.start hprod).run hrun⟩

/-- A reader before its file is read. -/
def sampleReader : FileReader where
  delimiter := ','
  reader := {}
  infile := some (fgetsFrom 4096 [] "Opcode,Cost\nnop,1\n".toList)

/-- The worker waits twice, wakes up once for nothing and once for the first part. -/
def sampleSchedule : List System.Action :=
  [.consumer, .consumer, .producer, .wakeup, .producer, .consumer, .consumer, .producer, .producer,
    .producer, .producer, .producer, .producer, .consumer, .consumer, .consumer, .consumer, .consumer,
    .consumer, .consumer, .consumer, .consumer, .producer]

def sampleStart : State ReadLoop Text CSVReader :=
  sampleReader.startThreads (fgetsFrom 4096 [] "Opcode,Cost\nnop,1\n".toList)

def sampleRun : List (System.Action × State ReadLoop Text CSVReader) × State ReadLoop Text CSVReader :=
  ((readCsvThreads ',' 500000).execute sampleStart sampleSchedule).getD ([], sampleStart)

theorem run_sample : (readCsvThreads ',' 500000).Run sampleStart sampleRun.1 sampleRun.2 :=
  run_of_execute (by decide +kernel : (readCsvThreads ',' 500000).execute sampleStart sampleSchedule =
    some sampleRun)

/-- However the threads are interleaved, `read_csv` does what it does when the worker is a call, and
leaves an empty queue and a free mutex. -/
theorem joinedThreads_eq (hopen : r.infile = some infile)
    (hrun : (readCsvThreads r.delimiter bytes).Run (r.startThreads infile) run t)
    (hjoined : t.producer = .joined) :
    r.joinedThreads t = r.readCsv bytes ∧ t.queue = [] ∧ t.mutex = none := by
  obtain ⟨q, hq, hinv⟩ := run_inv hrun
  obtain ⟨hresult, hsource, hqueue, hmutex⟩ := hinv.joined hjoined
  refine ⟨?_, hqueue, hmutex⟩
  have hlines := congrArg Prod.fst hq
  have hfeof := congrArg Prod.snd hq
  dsimp only at hlines hfeof
  rw [FileReader.joinedThreads, FileReader.readCsv, hopen, hresult, hsource, hlines, hfeof]
  rfl

theorem joinedThreads_eq_sample :
    sampleReader.joinedThreads sampleRun.2 = sampleReader.readCsv 500000 ∧
      sampleRun.2.queue = [] ∧ sampleRun.2.mutex = none :=
  joinedThreads_eq rfl run_sample (by decide +kernel)

/-- Without quotes and with line ends of one character, the parser has been fed with what has been
read of the file as if it had got it at once. Each call of `feed` must keep the text of its rows; the
single call does so when nothing is left from before. -/
theorem joinedThreads_unquoted (hnul : ∀ line ∈ infile, '\x00' ∉ line.1)
    (hquote : '"' ∉ unread infile) (hends : CSVReader.SingleEnds (unread infile)) {result : CSVReader}
    (hstay : (fileParts bytes infile).foldlM (CSVReader.feedStaying r.delimiter) r.reader =
      some result)
    (hrun : (readCsvThreads r.delimiter bytes).Run (r.startThreads infile) run t)
    (hjoined : t.producer = .joined) :
    ∃ read, read ++ unread t.source.infile = unread infile ∧ t.result = result ∧
      result = CSVReader.feed r.delimiter r.reader read ∧
      (r.reader.recordBuffer.buffer = [] →
        CSVReader.feedStaying r.delimiter r.reader read = some result) := by
  obtain ⟨q, hq, hinv⟩ := run_inv hrun
  obtain ⟨hresult, rfl, -, -⟩ := hinv.joined hjoined
  have hlines := congrArg Prod.fst hq
  dsimp only at hlines
  have hflat : (fileParts bytes infile).flatten ++ unread t.source.infile = unread infile := by
    rw [hlines]
    exact flatten_readParts hnul [] 0 false
  have hparts := CSVReader.foldlM_feedStaying hstay
  have honce : result = CSVReader.feed r.delimiter r.reader (fileParts bytes infile).flatten := by
    rw [hparts]
    refine CSVReader.foldl_feed r.reader (fun hmem => hquote ?_) ?_
    · rw [← hflat]
      exact List.mem_append_left _ hmem
    · rw [← hflat] at hends
      exact (List.isChain_append.mp hends).1
  refine ⟨(fileParts bytes infile).flatten, hflat, hresult.trans hparts.symm, honce, fun hempty => ?_⟩
  rw [CSVReader.feedStaying, if_pos (CSVReader.rowsStay_of_empty hempty _), honce]

def sampleResult : CSVReader := CSVReader.feed ',' {} "Opcode,Cost\nnop,1\n".toList

theorem joinedThreads_unquoted_sample :
    ∃ read, read ++ unread sampleRun.2.source.infile = unread sampleStart.source.infile ∧
      sampleRun.2.result = sampleResult ∧
      sampleResult = CSVReader.feed ',' sampleReader.reader read ∧
      (sampleReader.reader.recordBuffer.buffer = [] →
        CSVReader.feedStaying ',' sampleReader.reader read = some sampleResult) :=
  joinedThreads_unquoted (r := sampleReader) (by decide) (by decide) (by decide)
    (by decide +kernel) run_sample (by decide +kernel)

/-- In every state each part of the file is parsed, with the worker, in the queue or still to come, in
order, and the threads keep out of each other's way. `fgets` has room for a page when the buffer has
room for ten. -/
theorem threads_safe
    (hrun : (readCsvThreads r.delimiter bytes).Run (r.startThreads infile) run t) :
    (∃ (parsed : List Text) (coming : List (Option Text)),
      t.result = parsed.foldl (CSVReader.feed r.delimiter) r.reader ∧
      parsed.map some ++ (t.consumer.inHand ++ (t.queue ++ coming)) =
        (fileParts bytes infile).map some ++ [none]) ∧
    ¬ (t.producer.Holds ∧ t.consumer.Holds) ∧
    (t.consumer = .pop → t.queue ≠ []) ∧
    ∀ pageSize, 10 * pageSize ≤ bufferUpperLimit bytes →
      t.source.buffer.length + pageSize ≤ bufferUpperLimit bytes := by
  obtain ⟨q, -, hguarded, parsed, coming, -, hresult, hitems⟩ := run_inv hrun
  refine ⟨⟨parsed, coming, hresult, hitems⟩, fun hboth => hguarded.not_both hboth.1 hboth.2,
    hguarded.pop, fun pageSize hpage => ?_⟩
  have hroom : t.source.HasRoom bytes :=
    run_source (readLoop_hasRoom r.delimiter bytes) (Nat.zero_le _) hrun
  unfold ReadLoop.HasRoom at hroom
  omega

theorem threads_safe_sample :
    (∃ (parsed : List Text) (coming : List (Option Text)),
      sampleRun.2.result = parsed.foldl (CSVReader.feed ',') sampleReader.reader ∧
      parsed.map some ++ (sampleRun.2.consumer.inHand ++ (sampleRun.2.queue ++ coming)) =
        (fileParts 500000 sampleStart.source.infile).map some ++ [none]) ∧
    sampleRun.2.source.buffer.length + 4096 ≤ bufferUpperLimit 500000 := by
  have hsafe := threads_safe (r := sampleReader) run_sample
  exact ⟨hsafe.1, hsafe.2.2.2 4096 (by decide)⟩

/-- The threads never block each other for ever: when neither of them can go on, the worker has been
joined; and there are only as many steps as the lines of the file and the returns of `wait` without a
notification allow. -/
theorem threads_terminate
    (hrun : (readCsvThreads r.delimiter bytes).Run (r.startThreads infile) run t) :
    run.length ≤ 14 * infile.length + 25 + 4 * System.wakeups run ∧
    (t.producer = .joined ↔
      (readCsvThreads r.delimiter bytes).producerStep t = none ∧
      (readCsvThreads r.delimiter bytes).consumerStep t = none) := by
  obtain ⟨q, -, hinv⟩ := run_inv hrun
  refine ⟨run_length_le (ranked_readLoop r.delimiter bytes) hrun, fun hjoined => ⟨?_, ?_⟩,
    fun hstuck => hinv.joined_of_stuck hstuck.1 hstuck.2⟩
  · simp only [System.producerStep, hjoined]
  · simp only [System.consumerStep, hinv.guarded.joined hjoined]

end Threads

theorem threads_terminate_sample :
    sampleRun.1.length ≤ 57 ∧
      (readCsvThreads ',' 500000).producerStep sampleRun.2 = none ∧
      (readCsvThreads ',' 500000).consumerStep sampleRun.2 = none := by
  have hterm := threads_terminate (r := sampleReader) run_sample
  exact ⟨hterm.1, hterm.2.mp (by decide +kernel)⟩

end Csv
