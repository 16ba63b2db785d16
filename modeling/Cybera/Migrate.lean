import Cybera.Collections
import Cybera.Interruptions

/-!
scripts/migrate.ts, run again and again over a directory that grows, where each
run may fail or die at any statement. What a statement does to the schema is
PostgreSQL's business and a parameter here.
-/

namespace Cybera.Migrate

open Collections Interleaving Interruptions

/-- A JavaScript string: its UTF-16 code units, by which sort() compares. -/
abbrev FileName := List (Fin 65536)

/-- A file is its statements; none of them is transaction control. -/
structure Directory (Change : Type) where
  entries : List (FileName × List Change)
  distinct : (entries.map Prod.fst).Nodup

/-- ".sql" -/
def dotSql : FileName := [46, 115, 113, 108]

/-- `.filter((f) => f.endsWith('.sql')).sort()` -/
def sqlFiles (listed : List FileName) : List FileName :=
  (listed.filter fun file => decide (dotSql <:+ file)).insertionSort (· ≤ ·)

theorem mem_sqlFiles {listed : List FileName} {file : FileName} :
    file ∈ sqlFiles listed ↔ file ∈ listed ∧ dotSql <:+ file := by
  rw [sqlFiles, List.mem_insertionSort, List.mem_filter, decide_eq_true_eq]

theorem sqlFiles_sorted {listed : List FileName} (distinct : listed.Nodup) :
    (sqlFiles listed).Pairwise (· < ·) := by
  have sorted : (sqlFiles listed).Pairwise (· ≤ ·) := List.pairwise_insertionSort _ _
  have once : (sqlFiles listed).Nodup :=
    (List.perm_insertionSort _ _).nodup_iff.mpr (distinct.filter _)
  exact sorted.imp₂ (fun _ _ below different => lt_of_le_of_ne below different) once

inductive Failure where
  | query
  | file
  deriving DecidableEq

inductive Cmd (Change : Type) where
  | connect
  | createTable
  | readdir
  | selectName (file : FileName)
  | readFile (file : FileName)
  | begin
  | change (change : Change)
  | insertName (file : FileName)
  | commit
  | rollback
  | finish

@[reducible] def Res {Change : Type} : Cmd Change → Type
  | .readdir => List FileName
  | .selectName _ => Nat
  | .readFile _ => List Change
  | _ => Unit

section Program
variable {Change : Type}

abbrev Program (Change α : Type) := Prog (Cmd Change) Res Failure α

abbrev perform (cmd : Cmd Change) : Program Change (Res cmd) := Prog.perform cmd

/-- client.query(sql) runs the statements of the text in turn and stops at the first that fails. -/
def applyFile (file : FileName) (sql : List Change) : Program Change Unit :=
  (do
    let _ ← Prog.each sql fun change => perform (.change change)
    let _ ← perform (.insertName file)
    perform .commit).rescue fun error => do
      let _ ← perform .rollback
      .raise error

def migrateFile (file : FileName) : Program Change Unit := do
  let rows ← perform (.selectName file)
  if 0 < rows then pure ()
  else do
    let sql ← perform (.readFile file)
    let _ ← perform .begin
    applyFile file sql

def run : Program Change Unit := do
  let _ ← perform .connect
  let _ ← perform .createTable
  let listed ← perform .readdir
  let _ ← Prog.each (sqlFiles listed) migrateFile
  perform .finish

end Program

/-- `migrations` are the names in _migrations, `none` before there is the table. -/
@[ext] structure Tables (Schema : Type) where
  schema : Schema
  migrations : Option (List FileName)
  deriving DecidableEq

def Tables.names {Schema : Type} (tables : Tables Schema) : List FileName :=
  tables.migrations.getD []

theorem named_migrations {Schema : Type} {tables : Tables Schema}
    (present : tables.migrations.isSome) : tables.migrations = some tables.names := by
  obtain ⟨names, found⟩ := Option.isSome_iff_exists.mp present
  rw [Tables.names, found, Option.getD_some]

structure Txn (Schema : Type) where
  tables : Tables Schema
  aborted : Bool
  deriving DecidableEq

/-- The database, and the transaction that the runner's connection has open. -/
structure Server (Schema : Type) where
  committed : Tables Schema
  txn : Option (Txn Schema)
  deriving DecidableEq

/-- With `lost` the command took effect, but the runner is told that it failed. -/
inductive Fate where
  | works
  | fails
  | lost
  deriving DecidableEq

namespace Server
variable {Schema Change : Type}

def current (server : Server Schema) : Tables Schema :=
  match server.txn with
  | some txn => txn.tables
  | none => server.committed

/-- A statement that fails aborts the transaction it is in. -/
def abort (server : Server Schema) : Server Schema :=
  { server with txn := server.txn.map fun txn => { txn with aborted := true } }

def alter (server : Server Schema) (statement : Tables Schema → Option (Tables Schema)) :
    Except Failure Unit × Server Schema :=
  match server.txn with
  | none =>
      match statement server.committed with
      | some tables => (.ok (), { server with committed := tables })
      | none => (.error .query, server)
  | some txn =>
      if txn.aborted then (.error .query, server)
      else match statement txn.tables with
        | some tables => (.ok (), { server with txn := some ⟨tables, false⟩ })
        | none => (.error .query, server.abort)

/-- COMMIT of an aborted transaction is a ROLLBACK. -/
def commit (server : Server Schema) : Server Schema :=
  match server.txn with
  | none => server
  | some txn => ⟨if txn.aborted then server.committed else txn.tables, none⟩

def closed (server : Server Schema) : Server Schema := { server with txn := none }

end Server

section Semantics
variable {Schema Change : Type} (effect : Change → Schema → Option Schema)

def createTable (tables : Tables Schema) : Option (Tables Schema) :=
  some { tables with migrations := some tables.names }

def runChange (change : Change) (tables : Tables Schema) : Option (Tables Schema) :=
  (effect change tables.schema).map fun schema => { tables with schema }

/-- `name` is the primary key. -/
def insertName (file : FileName) (tables : Tables Schema) : Option (Tables Schema) :=
  tables.migrations.bind fun names =>
    if file ∈ names then none else some { tables with migrations := some (names ++ [file]) }

def countName (file : FileName) (server : Server Schema) : Option Nat :=
  if server.txn.any Txn.aborted then none else server.current.migrations.map (List.count file)

def works (dir : Directory Change) (server : Server Schema) :
    (cmd : Cmd Change) → Except Failure (Res cmd) × Server Schema
  | .connect => (.ok (), server)
  | .createTable => server.alter createTable
  | .readdir => (.ok (dir.entries.map Prod.fst), server)
  | .selectName file =>
      match countName file server with
      | some rows => (.ok rows, server)
      | none => (.error .query, server.abort)
  | .readFile file =>
      match dir.entries.lookup file with
      | some sql => (.ok sql, server)
      | none => (.error .file, server)
  | .begin => (.ok (), { server with txn := server.txn.or (some ⟨server.committed, false⟩) })
  | .change change => server.alter (runChange effect change)
  | .insertName file => server.alter (insertName file)
  | .commit => (.ok (), server.commit)
  | .rollback => (.ok (), server.closed)
  | .finish => (.ok (), server.closed)

/-- A COMMIT that fails has rolled back. -/
def fails (server : Server Schema) : Cmd Change → Failure × Server Schema
  | .readdir => (.file, server)
  | .readFile _ => (.file, server)
  | .commit => (.query, server.closed)
  | _ => (.query, server.abort)

def exec (dir : Directory Change) (cmd : Cmd Change) (fate : Fate) (server : Server Schema) :
    Except Failure (Res cmd) × Server Schema :=
  match fate with
  | .works => works effect dir server cmd
  | .fails => (.error (fails server cmd).1, (fails server cmd).2)
  | .lost => (.error (fails server cmd).1, (works effect dir server cmd).2)

/-- One launch of the script: what the directory held, and what its commands met. -/
structure Launch (Change : Type) where
  dir : Directory Change
  fates : List Fate

/-- The end of the process closes the connection. -/
def Launch.run (launch : Launch Change) (server : Server Schema) :
    Ending Failure Unit × Server Schema :=
  let result := attempt (exec effect launch.dir) Migrate.run launch.fates server
  (result.1, result.2.closed)

def rerun (launches : List (Launch Change)) (server : Server Schema) : Server Schema :=
  launches.foldl (fun server launch => (launch.run effect server).2) server

def fresh (schema : Schema) : Server Schema := ⟨⟨schema, none⟩, none⟩

/-- What the statements make of a schema, one after the other. -/
def effects : List Change → Schema → Option Schema
  | [], schema => some schema
  | change :: rest, schema => (effect change schema).bind (effects rest)

theorem effects_append (first second : List Change) (schema : Schema) :
    effects effect (first ++ second) schema =
      (effects effect first schema).bind (effects effect second) := by
  induction first generalizing schema with
  | nil => rfl
  | cons change rest ih =>
      simp only [List.cons_append, effects, Option.bind_assoc]
      exact Option.bind_congr fun middle _ => ih middle

end Semantics

section Files
variable {Change : Type} {dir : Directory Change}

def Directory.files (dir : Directory Change) : List FileName := sqlFiles (dir.entries.map Prod.fst)

def Directory.text (dir : Directory Change) (file : FileName) : List Change :=
  (dir.entries.lookup file).getD []

theorem files_sorted (dir : Directory Change) : dir.files.Pairwise (· < ·) :=
  sqlFiles_sorted dir.distinct

theorem files_listed {file : FileName} (member : file ∈ dir.files) :
    dir.entries.lookup file = some (dir.text file) := by
  obtain ⟨entry, listed, same⟩ := List.mem_map.mp (mem_sqlFiles.mp member).1
  cases found : dir.entries.lookup file with
  | some sql => simp [Directory.text, found]
  | none =>
      have other := List.lookup_eq_none_iff.mp found entry listed
      simp [same] at other

end Files

def pending (names files : List FileName) : List FileName :=
  files.filter fun file => decide (file ∉ names)

section Runs
variable {Schema Change : Type} {effect : Change → Schema → Option Schema} {dir : Directory Change}
  {allowed : Fate → Prop} {start : Tables Schema} {server : Server Schema} {done : List FileName}
  {file : FileName}

/-- Since `start`, the files `done` have been applied and recorded, in this order. -/
structure Advanced (effect : Change → Schema → Option Schema) (dir : Directory Change)
    (start : Tables Schema) (done : List FileName) (tables : Tables Schema) : Prop where
  names : tables.names = start.names ++ done
  schema : effects effect (done.flatMap dir.text) start.schema = some tables.schema

/-- While a file is dealt with: it is applied and recorded, or neither. -/
def Between (effect : Change → Schema → Option Schema) (dir : Directory Change)
    (start : Tables Schema) (done next : List FileName) (server : Server Schema) : Prop :=
  Advanced effect dir start done server.committed ∨ Advanced effect dir start next server.committed

/-- Why the runner may throw: a command failed, or one of the files cannot be applied. -/
def Excused (effect : Change → Schema → Option Schema) (dir : Directory Change)
    (allowed : Fate → Prop) (start : Tables Schema) (files : List FileName) : Prop :=
  (∃ fate, allowed fate ∧ fate ≠ .works) ∨
    effects effect (files.flatMap dir.text) start.schema = none

/-- The next file may be taken up. -/
structure Ready (effect : Change → Schema → Option Schema) (dir : Directory Change)
    (start : Tables Schema) (done : List FileName) (server : Server Schema) : Prop where
  quiet : server.txn = none
  table : server.committed.migrations.isSome
  advanced : Advanced effect dir start done server.committed

theorem command_guarded {stop : Server Schema → Prop} (cmd : Cmd Change)
    {ok : Res cmd → Server Schema → Prop} {files : List FileName}
    (kept : ∀ fate, stop (exec effect dir cmd fate server).2) (here : stop server)
    (worked : Branch ok (fun _ after => stop after ∧ Excused effect dir allowed start files)
      (works effect dir server cmd).1 (works effect dir server cmd).2) :
    Guarded (exec effect dir) allowed stop
      (Branch ok fun _ after => stop after ∧ Excused effect dir allowed start files)
      (perform cmd) server := by
  refine guarded_perform _ _ here ?_
  intro fate permitted
  cases fate with
  | works => exact worked
  | fails => exact ⟨kept .fails, Or.inl ⟨_, permitted, by decide⟩⟩
  | lost => exact ⟨kept .lost, Or.inl ⟨_, permitted, by decide⟩⟩

theorem rollback_guarded {next : List FileName} {error : Failure}
    (between : Between effect dir start done next server)
    (excused : Excused effect dir allowed start next) :
    Guarded (exec effect dir) allowed (Between effect dir start done next)
      (Branch (fun _ => Ready effect dir start next) fun _ after =>
        Between effect dir start done next after ∧ Excused effect dir allowed start next)
      (do
        let _ ← perform .rollback
        .raise error : Program Change Unit) server := by
  refine guarded_bind _ _ _ (guarded_perform _ _ between ?_)
  intro fate _
  have kept : (exec effect dir .rollback fate server).2.committed = server.committed := by
    cases fate <;> rfl
  have outcome : Between effect dir start done next (exec effect dir .rollback fate server).2 := by
    unfold Between
    rw [kept]
    exact between
  -- the caller throws its own error, whatever becomes of the ROLLBACK
  cases (exec effect dir .rollback fate server).1 with
  | ok _ => exact ⟨outcome, excused⟩
  | error _ => exact ⟨outcome, excused⟩

theorem alter_inside (statement : Tables Schema → Option (Tables Schema))
    (committed tables : Tables Schema) :
    (⟨committed, some ⟨tables, false⟩⟩ : Server Schema).alter statement =
      match statement tables with
      | some altered => (.ok (), ⟨committed, some ⟨altered, false⟩⟩)
      | none => (.error .query, ⟨committed, some ⟨tables, true⟩⟩) := rfl

/-- The statements `ran` have worked on the transaction's copy of the tables. -/
def Inside (effect : Change → Schema → Option Schema) (committed : Tables Schema)
    (ran : List Change) (server : Server Schema) : Prop :=
  ∃ schema, effects effect ran committed.schema = some schema ∧
    server = ⟨committed, some ⟨{ committed with schema }, false⟩⟩

/-- The statements `sql` failed, for a reason, and left what is committed alone. -/
def Halted (effect : Change → Schema → Option Schema) (allowed : Fate → Prop)
    (committed : Tables Schema) (sql : List Change) (server : Server Schema) : Prop :=
  server.committed = committed ∧ ((∃ fate, allowed fate ∧ fate ≠ .works) ∨
    effects effect sql committed.schema = none)

theorem change_guarded {committed : Tables Schema} {ran : List Change} (change : Change)
    (inside : Inside effect committed ran server) :
    Guarded (exec effect dir) allowed (fun after => after.committed = committed)
      (Branch (fun _ => Inside effect committed (ran ++ [change]))
        fun _ => Halted effect allowed committed (ran ++ [change]))
      (perform (.change change)) server := by
  obtain ⟨schema, ran', rfl⟩ := inside
  have next : effects effect (ran ++ [change]) committed.schema = effect change schema := by
    rw [effects_append, ran']
    simp [effects]
  refine guarded_perform _ _ rfl ?_
  intro fate permitted
  cases fate with
  | works =>
      simp only [exec, works, alter_inside, runChange]
      cases ran'' : effect change schema with
      | some after => exact ⟨after, next.trans ran'', rfl⟩
      | none => exact ⟨rfl, Or.inr (next.trans ran'')⟩
  | fails => exact ⟨rfl, Or.inl ⟨_, permitted, by decide⟩⟩
  | lost =>
      refine ⟨?_, Or.inl ⟨_, permitted, by decide⟩⟩
      simp only [exec, works, alter_inside, runChange]
      cases effect change schema <;> rfl

theorem statements_guarded {committed : Tables Schema} (sql : List Change)
    (inside : Inside effect committed [] server) :
    Guarded (exec effect dir) allowed (fun after => after.committed = committed)
      (Branch (fun _ => Inside effect committed sql) fun _ => Halted effect allowed committed sql)
      (Prog.each sql fun change => perform (.change change)) server := by
  have whole : Guarded (exec effect dir) allowed (fun after => after.committed = committed)
      (Branch (fun _ after => [] ++ sql ++ [] = sql ∧ Inside effect committed ([] ++ sql) after)
        fun _ => Halted effect allowed committed sql)
      (Prog.each sql fun change => perform (.change change)) server := by
    refine guarded_each (fun ran later after => ran ++ later = sql ∧
      Inside effect committed ran after)
      _ ?_ [] sql server ⟨rfl, inside⟩
    intro ran change later after ⟨listed, inside⟩
    refine guarded_mono (fun _ => id) ?_ _ _ (change_guarded change inside)
    rintro (_ | _) last reached
    · obtain ⟨same, refused | stuck⟩ := reached
      · exact ⟨same, Or.inl refused⟩
      · refine ⟨same, Or.inr ?_⟩
        rw [← listed, List.append_cons, effects_append, stuck, Option.bind_none]
    · exact ⟨by rw [← listed, List.append_assoc]; rfl, reached⟩
  refine guarded_mono (fun _ => id) ?_ _ _ whole
  rintro (_ | _) after reached
  · exact reached
  · exact reached.2

theorem applyFile_guarded {committed : Tables Schema} {names : List FileName}
    (table : committed.migrations = some names) (unrecorded : file ∉ names)
    (advanced : Advanced effect dir start done committed)
    (opened : server = ⟨committed, some ⟨committed, false⟩⟩) :
    Guarded (exec effect dir) allowed (Between effect dir start done (done ++ [file]))
      (Branch (fun _ => Ready effect dir start (done ++ [file])) fun _ after =>
        Between effect dir start done (done ++ [file]) after ∧
          Excused effect dir allowed start (done ++ [file]))
      (applyFile file (dir.text file)) server := by
  have stays : ∀ {after : Server Schema}, after.committed = committed →
      Between effect dir start done (done ++ [file]) after := by
    intro after same
    exact Or.inl (same ▸ advanced)
  have further : effects effect ((done ++ [file]).flatMap dir.text) start.schema =
      effects effect (dir.text file) committed.schema := by
    simp [effects_append, advanced.schema]
  have inside : Inside effect committed [] server := ⟨committed.schema, rfl, opened⟩
  apply guarded_rescue
  refine guarded_bind _ _ _ (guarded_mono (fun _ => stays) ?_ _ _ (statements_guarded _ inside))
  rintro (_ | _) w1 reached
  · obtain ⟨same, refused | stuck⟩ := reached
    · exact rollback_guarded (stays same) (Or.inl refused)
    · exact rollback_guarded (stays same) (Or.inr (further.trans stuck))
  obtain ⟨schema, ran, rfl⟩ := reached
  have recorded : insertName file { committed with schema } =
      some ⟨schema, some (names ++ [file])⟩ := by
    simp [insertName, table, unrecorded]
  have grown : Advanced effect dir start (done ++ [file]) ⟨schema, some (names ++ [file])⟩ := by
    have names' : names = start.names ++ done := by
      rw [← advanced.names, Tables.names, table, Option.getD_some]
    refine ⟨?_, further.trans ran⟩
    rw [Tables.names, Option.getD_some, names', List.append_assoc]
  refine guarded_bind _ _ _ (guarded_perform _ _ (stays rfl) ?_)
  intro fate permitted
  cases fate with
  | fails =>
      refine rollback_guarded ?_ (Or.inl ⟨_, permitted, by decide⟩)
      exact stays rfl
  | lost =>
      simp only [exec, works, alter_inside, recorded]
      refine rollback_guarded ?_ (Or.inl ⟨_, permitted, by decide⟩)
      exact stays rfl
  | works =>
      simp only [exec, works, alter_inside, recorded]
      refine guarded_perform Cmd.commit _ ?_ ?_
      · exact stays rfl
      intro fate permitted
      cases fate with
      | works => exact ⟨rfl, rfl, grown⟩
      | fails =>
          refine rollback_guarded ?_ (Or.inl ⟨_, permitted, by decide⟩)
          exact stays rfl
      -- the file is committed, and the ROLLBACK finds no transaction to undo
      | lost => exact rollback_guarded (Or.inr grown) (Or.inl ⟨_, permitted, by decide⟩)

theorem migrateFile_guarded {next : List FileName} (ready : Ready effect dir start done server)
    (listed : file ∈ dir.files) (unseen : file ∉ done)
    (taken : next = done ++ pending start.names [file]) :
    Guarded (exec effect dir) allowed (Between effect dir start done next)
      (Branch (fun _ => Ready effect dir start next) fun _ after =>
        Between effect dir start done next after ∧ Excused effect dir allowed start next)
      (migrateFile file) server := by
  obtain ⟨committed, txn⟩ := server
  obtain ⟨rfl : txn = none, table, advanced : Advanced effect dir start done committed⟩ := ready
  obtain ⟨names, table : committed.migrations = some names⟩ := Option.isSome_iff_exists.mp table
  have names' : names = start.names ++ done := by
    rw [← advanced.names, Tables.names, table, Option.getD_some]
  have counted : countName file ⟨committed, none⟩ = some (names.count file) := by
    simp [countName, Server.current, table]
  have stays : Between effect dir start done next ⟨committed, none⟩ := Or.inl advanced
  refine guarded_bind _ _ _ (command_guarded _ ?_ stays ?_)
  · intro fate
    cases fate <;> simp only [exec, works, counted] <;> exact stays
  simp only [works, counted]
  -- a name found in the table is from before this launch, since each file comes up once
  by_cases known : file ∈ names
  · have before : file ∈ start.names := by simpa [names', unseen] using known
    obtain rfl : next = done := by simp [taken, pending, before]
    simp only [Branch, List.count_pos_iff, known, if_true]
    exact ⟨rfl, by simp [table], advanced⟩
  have before : file ∉ start.names := fun before => known (by simp [names', before])
  obtain rfl : next = done ++ [file] := by simp [taken, pending, before]
  simp only [Branch, List.count_pos_iff, known, if_false]
  refine guarded_bind _ _ _ (command_guarded _ ?_ stays ?_)
  · intro fate
    cases fate <;> simp only [exec, works, files_listed listed] <;> exact stays
  simp only [works, files_listed listed]
  refine guarded_bind _ _ _ (command_guarded _ ?_ stays ?_)
  · intro fate
    cases fate <;> exact Or.inl advanced
  exact applyFile_guarded table known advanced rfl

/-- The files of a prefix of the pending ones are applied, no others. -/
def Partly (effect : Change → Schema → Option Schema) (dir : Directory Change)
    (start : Tables Schema) (server : Server Schema) : Prop :=
  ∃ done, done <+: pending start.names dir.files ∧ Advanced effect dir start done server.committed

theorem files_guarded (ready : Ready effect dir start [] server) :
    Guarded (exec effect dir) allowed (Partly effect dir start)
      (Branch (fun _ => Ready effect dir start (pending start.names dir.files)) fun _ after =>
        Partly effect dir start after ∧
          Excused effect dir allowed start (pending start.names dir.files))
      (Prog.each dir.files migrateFile) server := by
  have once : dir.files.Nodup := (files_sorted dir).imp fun below => ne_of_lt below
  have whole : Guarded (exec effect dir) allowed (Partly effect dir start)
      (Branch (fun _ after => [] ++ dir.files ++ [] = dir.files ∧
          Ready effect dir start (pending start.names ([] ++ dir.files)) after) fun _ after =>
        Partly effect dir start after ∧
          Excused effect dir allowed start (pending start.names dir.files))
      (Prog.each dir.files migrateFile) server := by
    refine guarded_each (fun seen later after => seen ++ later = dir.files ∧
      Ready effect dir start (pending start.names seen) after) _ ?_ [] _ server ⟨rfl, ready⟩
    intro seen file later after ⟨split, ready⟩
    have listed : file ∈ dir.files := by simp [← split]
    have unseen : file ∉ pending start.names seen := by
      intro member
      rw [← split] at once
      exact List.disjoint_of_nodup_append once (List.mem_filter.mp member).1 (by simp)
    have earlier : pending start.names seen <+: pending start.names dir.files :=
      (show seen <+: dir.files from ⟨_, split⟩).filter _
    have upTo : pending start.names (seen ++ [file]) <+: pending start.names dir.files :=
      (show seen ++ [file] <+: dir.files from ⟨later, by simp [← split]⟩).filter _
    have partly : ∀ after, Between effect dir start (pending start.names seen)
        (pending start.names (seen ++ [file])) after → Partly effect dir start after := by
      rintro after (advanced | advanced)
      · exact ⟨_, earlier, advanced⟩
      · exact ⟨_, upTo, advanced⟩
    refine guarded_mono partly ?_ _ _ (migrateFile_guarded ready listed unseen
      (List.filter_append _ _))
    rintro (_ | _) last reached
    · refine ⟨partly _ reached.1, ?_⟩
      rcases reached.2 with refused | stuck
      · exact Or.inl refused
      · obtain ⟨rest, whole⟩ := upTo
        refine Or.inr ?_
        rw [← whole, List.flatMap_append, effects_append, stuck, Option.bind_none]
    · exact ⟨by simp [← split], reached⟩
  refine guarded_mono (fun _ => id) ?_ _ _ whole
  rintro (_ | _) after reached
  · exact reached
  · exact reached.2

theorem run_guarded (quiet : server.txn = none) :
    Guarded (exec effect dir) allowed (Partly effect dir server.committed)
      (Branch (fun _ => Ready effect dir server.committed
          (pending server.committed.names dir.files)) fun _ after =>
        Partly effect dir server.committed after ∧
          Excused effect dir allowed server.committed (pending server.committed.names dir.files))
      run server := by
  obtain ⟨start, txn⟩ := server
  obtain rfl : txn = none := quiet
  have none' : ∀ {migrations}, migrations.getD [] = start.names →
      Advanced effect dir start [] ⟨start.schema, migrations⟩ := by
    intro migrations same
    exact ⟨by rw [Tables.names, same, List.append_nil], rfl⟩
  have stays : ∀ {migrations txn}, migrations.getD [] = start.names →
      Partly effect dir start ⟨⟨start.schema, migrations⟩, txn⟩ := by
    intro migrations txn same
    exact ⟨[], List.nil_prefix, none' same⟩
  have here : Partly effect dir start ⟨start, none⟩ := stays rfl
  refine guarded_bind _ _ _ (command_guarded _ ?_ here ?_)
  · intro fate
    cases fate <;> exact here
  refine guarded_bind _ _ _ (command_guarded _ ?_ here ?_)
  · intro fate
    cases fate <;> exact stays rfl
  -- an empty table of names is no name more than no table
  have made : Partly effect dir start ⟨⟨start.schema, some start.names⟩, none⟩ := stays rfl
  refine guarded_bind _ _ _ (command_guarded _ ?_ made ?_)
  · intro fate
    cases fate <;> exact made
  refine guarded_bind _ _ _ (guarded_mono (fun _ => id) ?_ _ _
    (files_guarded ⟨rfl, rfl, none' rfl⟩))
  rintro (_ | _) last reached
  · exact reached
  obtain ⟨_, table, advanced⟩ := reached
  have all : ∀ txn, Partly effect dir start ⟨last.committed, txn⟩ := by
    intro txn
    exact ⟨_, List.prefix_refl _, advanced⟩
  refine command_guarded .finish ?_ (all _) ?_
  · intro fate
    cases fate <;> exact all _
  · exact ⟨rfl, table, advanced⟩

theorem launch_ends (launch : Launch Change) (quiet : server.txn = none) :
    ∃ done, done <+: pending server.committed.names launch.dir.files ∧
      Advanced effect launch.dir server.committed done (launch.run effect server).2.committed ∧
      ((launch.run effect server).1 = .returned () →
        done = pending server.committed.names launch.dir.files ∧
          (launch.run effect server).2.committed.migrations.isSome) := by
  have guarded : Guarded (exec effect launch.dir) (fun _ => True) _ _ run server :=
    run_guarded quiet
  have ends := guarded_ends run launch.fates server (fun _ _ => trivial) guarded
  unfold Launch.run
  revert ends
  cases attempt (exec effect launch.dir) run launch.fates server with
  | mk ending after =>
      intro ends
      cases ending with
      | returned value => exact ⟨_, List.prefix_refl _, ends.advanced, fun _ => ⟨rfl, ends.table⟩⟩
      | threw error =>
          obtain ⟨⟨done, upTo, advanced⟩, _⟩ := ends
          exact ⟨done, upTo, advanced, fun impossible => by cases impossible⟩
      | stopped =>
          obtain ⟨done, upTo, advanced⟩ := ends
          exact ⟨done, upTo, advanced, fun impossible => by cases impossible⟩

end Runs

section Histories
variable {Schema Change : Type} {effect : Change → Schema → Option Schema}
  {dir more : Directory Change} {initial : Schema} {server : Server Schema}
  {launches : List (Launch Change)}

/-- The names in _migrations, each of them once, are those of the files whose
effects make up the schema. -/
structure Consistent (effect : Change → Schema → Option Schema) (dir : Directory Change)
    (initial : Schema) (tables : Tables Schema) : Prop where
  once : tables.names.Nodup
  known : ∀ file ∈ tables.names, file ∈ dir.files
  schema : effects effect (tables.names.flatMap dir.text) initial = some tables.schema

theorem files_grow (grows : dir.entries ⊆ more.entries) {file : FileName}
    (member : file ∈ dir.files) : file ∈ more.files ∧ more.text file = dir.text file := by
  have kept := grows ((lookup_iff_mem dir.distinct).mp (files_listed member))
  constructor
  · exact mem_sqlFiles.mpr ⟨List.mem_map_of_mem kept, (mem_sqlFiles.mp member).2⟩
  · rw [Directory.text, (lookup_iff_mem more.distinct).mpr kept, Option.getD_some]

theorem texts_grow (grows : dir.entries ⊆ more.entries) {files : List FileName}
    (listed : ∀ file ∈ files, file ∈ dir.files) :
    files.flatMap more.text = files.flatMap dir.text := by
  rw [List.flatMap_def, List.flatMap_def, List.map_congr_left]
  intro file member
  exact (files_grow grows (listed file member)).2

theorem consistent_advanced {start tables : Tables Schema} {done : List FileName}
    (grows : dir.entries ⊆ more.entries) (consistent : Consistent effect more initial start)
    (upTo : done <+: pending start.names dir.files)
    (advanced : Advanced effect dir start done tables) :
    Consistent effect more initial tables := by
  have taken : ∀ file ∈ done, file ∈ dir.files ∧ file ∉ start.names := by
    intro file member
    obtain ⟨listed, new⟩ := List.mem_filter.mp (upTo.subset member)
    exact ⟨listed, of_decide_eq_true new⟩
  have once : (pending start.names dir.files).Nodup :=
    ((files_sorted dir).imp fun below => ne_of_lt below).filter _
  constructor
  · rw [advanced.names]
    refine List.nodup_append.mpr ⟨consistent.once, once.sublist upTo.sublist, ?_⟩
    rintro file old _ new rfl
    exact (taken file new).2 old
  · intro file member
    rw [advanced.names] at member
    rcases List.mem_append.mp member with old | new
    · exact consistent.known file old
    · exact (files_grow grows (taken file new).1).1
  · rw [advanced.names, List.flatMap_append, effects_append, consistent.schema, Option.bind_some,
      texts_grow grows fun file member => (taken file member).1]
    exact advanced.schema

theorem rerun_consistent (grows : ∀ launch ∈ launches, launch.dir.entries ⊆ more.entries)
    (quiet : server.txn = none) (consistent : Consistent effect more initial server.committed) :
    Consistent effect more initial (rerun effect launches server).committed := by
  induction launches generalizing server with
  | nil => exact consistent
  | cons launch rest ih =>
      obtain ⟨done, upTo, advanced, _⟩ := launch_ends launch quiet
      exact ih (fun other member => grows other (by simp [member])) rfl
        (consistent_advanced (grows launch (by simp)) consistent upTo advanced)

theorem fresh_consistent (initial : Schema) :
    Consistent effect dir initial (fresh initial).committed :=
  ⟨List.nodup_nil, by simp [fresh, Tables.names], rfl⟩

/-- A file that a launch is the first to find sorts after all that were applied before it. -/
def NewLast (effect : Change → Schema → Option Schema) (initial : Schema)
    (launches : List (Launch Change)) : Prop :=
  ∀ before launch after, launches = before ++ launch :: after → ∀ file ∈ launch.dir.files,
    (∀ earlier ∈ before, file ∉ earlier.dir.files) →
      ∀ name ∈ (rerun effect before (fresh initial)).committed.names, name < file

theorem NewLast.earlier {last : Launch Change}
    (ordered : NewLast effect initial (launches ++ [last])) : NewLast effect initial launches := by
  intro before launch after split
  exact ordered before launch (after ++ [last]) (by simp [split])

def Grows (launches : List (Launch Change)) : Prop :=
  launches.Pairwise fun earlier later => earlier.dir.entries ⊆ later.dir.entries

theorem rerun_append (launches : List (Launch Change)) (launch : Launch Change)
    (server : Server Schema) : rerun effect (launches ++ [launch]) server =
      (launch.run effect (rerun effect launches server)).2 := by
  simp [rerun, List.foldl_append]

theorem rerun_quiet (quiet : server.txn = none) : (rerun effect launches server).txn = none := by
  induction launches generalizing server with
  | nil => exact quiet
  | cons launch rest ih => exact ih rfl

theorem rerun_prefix (grows : Grows launches) (ordered : NewLast effect initial launches)
    (known : ∀ launch ∈ launches, launch.dir.entries ⊆ dir.entries)
    (above : ∀ file ∈ dir.files, (∀ launch ∈ launches, file ∉ launch.dir.files) →
      ∀ name ∈ (rerun effect launches (fresh initial)).committed.names, name < file) :
    (rerun effect launches (fresh initial)).committed.names ++
      pending (rerun effect launches (fresh initial)).committed.names dir.files = dir.files := by
  -- on the launches from the last one back, whose directory holds all earlier ones
  induction launches using List.reverseRecOn generalizing dir with
  | nil => simp [rerun, fresh, Tables.names, pending]
  | append_singleton earlier last ih =>
      obtain ⟨grows', _, within⟩ := List.pairwise_append.mp grows
      have split := ih grows' ordered.earlier (fun launch member => within launch member
        last (by simp)) (ordered earlier last [] rfl)
      rw [rerun_append] at above ⊢
      have quiet : (rerun effect earlier (fresh initial)).txn = none := rerun_quiet rfl
      obtain ⟨done, ⟨rest, taken⟩, advanced, _⟩ := launch_ends last quiet
      rw [← taken, ← List.append_assoc, ← advanced.names] at split
      have sorted := files_sorted last.dir
      rw [← split] at sorted
      obtain ⟨below, _, apart⟩ := List.pairwise_append.mp sorted
      have listed := known last (by simp)
      refine split_below (fun file => decide_eq_true_iff) (files_sorted dir) below ?_ ?_
      · intro name member
        have inside : name ∈ last.dir.files := split ▸ List.mem_append_left _ member
        exact (files_grow listed inside).1
      · intro file member new name applied
        by_cases inside : file ∈ last.dir.files
        · rw [← split] at inside
          exact apart name applied file ((List.mem_append.mp inside).resolve_left new)
        · refine above file member ?_ name applied
          intro launch started
          rcases List.mem_append.mp started with before | only
          · exact fun found => inside (files_grow (within launch before last (by simp)) found).1
          · rw [List.mem_singleton.mp only]
            exact inside

/-- Started on the untouched database, with commands that all work, the script
applies every file, if they can be applied at all. -/
theorem uninterrupted (dir : Directory Change) {tables : Tables Schema}
    (names : tables.migrations = some dir.files)
    (applied : effects effect (dir.files.flatMap dir.text) initial = some tables.schema) :
    ∃ steps, Launch.run effect ⟨dir, List.replicate steps .works⟩ (fresh initial) =
      (.returned (), ⟨tables, none⟩) := by
  obtain ⟨steps, finished⟩ : ∃ steps,
      (attempt (exec effect dir) run (List.replicate steps Fate.works)
      (fresh initial)).1 ≠ .stopped := attempt_finishes _ _ _
  have all : pending [] dir.files = dir.files := by simp [pending]
  have guarded : Guarded (exec effect dir) (· = Fate.works) _ _ run (fresh initial) :=
    run_guarded rfl
  have ends := guarded_ends run (List.replicate steps Fate.works) (fresh initial)
    (fun _ member => List.eq_of_mem_replicate member) guarded
  refine ⟨steps, ?_⟩
  unfold Launch.run
  revert finished ends
  cases attempt (exec effect dir) run (List.replicate steps Fate.works) (fresh initial) with
  | mk ending after =>
      intro finished ends
      cases ending with
      | stopped => exact absurd rfl finished
      | threw error =>
          obtain ⟨_, ⟨fate, works, other⟩ | stuck⟩ := ends
          · exact absurd works other
          · have whole := all ▸ stuck
            cases applied.symm.trans whole
      | returned value =>
          obtain ⟨_, table, recorded, schema⟩ := ends
          have whole : pending (fresh initial).committed.names dir.files = dir.files := all
          rw [whole] at recorded schema
          have same : after.committed = tables := by
            apply Tables.ext
            · exact Option.some.inj (schema.symm.trans applied)
            · rw [named_migrations table, recorded, names]
              rfl
          simp [Server.closed, same]

/-- However the launches before it ended, a launch leaves the names and the
schema in agreement and has applied some of the first pending files; if it comes
to its end, and new files came last, it ends as one launch would have that
nothing interrupted. -/
theorem migrations_resume (effect : Change → Schema → Option Schema) (initial : Schema)
    (earlier : List (Launch Change)) (last : Launch Change) (grows : Grows (earlier ++ [last])) :
    let before := rerun effect earlier (fresh initial)
    let ended := last.run effect before
    Consistent effect last.dir initial ended.2.committed ∧
      (∃ done, done <+: pending before.committed.names last.dir.files ∧
        Advanced effect last.dir before.committed done ended.2.committed ∧
        (ended.1 = .returned () → done = pending before.committed.names last.dir.files)) ∧
      (ended.1 = .returned () → NewLast effect initial (earlier ++ [last]) →
        ∃ steps, Launch.run effect ⟨last.dir, List.replicate steps .works⟩ (fresh initial) =
          ended) := by
  intro before ended
  have within : ∀ launch ∈ earlier ++ [last], launch.dir.entries ⊆ last.dir.entries := by
    intro launch member
    rcases List.mem_append.mp member with old | only
    · exact (List.pairwise_append.mp grows).2.2 launch old last (by simp)
    · rw [List.mem_singleton.mp only]
      exact List.Subset.refl _
  have consistent : Consistent effect last.dir initial
      (rerun effect (earlier ++ [last]) (fresh initial)).committed :=
    rerun_consistent within rfl (fresh_consistent initial)
  rw [rerun_append] at consistent
  have quiet : before.txn = none := rerun_quiet rfl
  obtain ⟨done, upTo, advanced, complete⟩ := launch_ends last quiet
  refine ⟨consistent, ⟨done, upTo, advanced, fun returned => (complete returned).1⟩, ?_⟩
  intro returned ordered
  obtain ⟨rfl, table⟩ := complete returned
  have split := rerun_prefix (List.pairwise_append.mp grows).1 ordered.earlier
    (fun launch member => within launch (by simp [member])) (ordered earlier last [] rfl)
  have names : ended.2.committed.names = last.dir.files := advanced.names.trans split
  have schema := consistent.schema
  rw [names] at schema
  obtain ⟨steps, ran⟩ := uninterrupted last.dir (names ▸ named_migrations table) schema
  refine ⟨steps, ran.trans ?_⟩
  exact Prod.ext returned.symm rfl

end Histories

/-- The schema is a list of tables; what exists already cannot be created. -/
def createOnce (table : Nat) (tables : List Nat) : Option (List Nat) :=
  if table ∈ tables then none else some (tables ++ [table])

def asciiName (text : List Char) : FileName := text.map fun c => Fin.ofNat 65536 c.toNat

def initFile : FileName × List Nat := (asciiName ['0', '0', '1', '.', 's', 'q', 'l'], [1, 2])
def requestsFile : FileName × List Nat := (asciiName ['0', '0', '2', '.', 's', 'q', 'l'], [3])

/-- The answer to the COMMIT of the first file is lost. -/
def unanswered : Launch Nat := ⟨⟨[initFile], by decide⟩, List.replicate 9 .works ++ [.lost]⟩

def relaunched : Launch Nat := ⟨⟨[requestsFile, initFile], by decide⟩, List.replicate 12 .works⟩

theorem migrations_resume_unanswered : ∃ steps,
    Launch.run createOnce ⟨relaunched.dir, List.replicate steps .works⟩ (fresh []) =
      relaunched.run createOnce (rerun createOnce [unanswered] (fresh [])) := by
  refine (migrations_resume createOnce [] [unanswered] relaunched ?_).2.2 (by decide +kernel) ?_
  · simp [Grows, unanswered, relaunched]
  · intro before launch after split
    rcases before with _ | ⟨first, _ | ⟨second, rest⟩⟩
    · simp [rerun, fresh, Tables.names]
    · simp only [List.cons_append, List.nil_append, List.cons.injEq] at split
      obtain ⟨rfl, rfl, _⟩ := split
      decide +kernel
    · simp at split

end Cybera.Migrate
