import TestMatrix.Machine
import TestMatrix.Proofs.Outcomes
import TestMatrix.Proofs.Paths
import TestMatrix.Proofs.Tables
import TestMatrix.Run.Hosts

/-!
# The template cache

A reader on fixed files remembers what it found under the components of each path. While paths of the
same components lead to the same text, every answer is that of a reader without a cache. Paths that
end in a component are of this kind; others are not: what is found at `a/` is not what is found at `a`.
-/

namespace TestMatrix

namespace Templates

section
variable (text? : String → Option (Except ReadFault String))

/-! ## Answers without a cache -/

def loaded (path : String) : Except RunFault (Option String) :=
  match text? path with
  | none => .ok none
  | some (.ok text) => .ok (some text)
  | some (.error fault) => .error (.templateUnreadable path fault)

/-- The first of these paths where there is a file, with what it holds. -/
def firstFile? (places : List String) : Option (String × Except ReadFault String) :=
  places.findSome? fun path => (text? path).map fun text => (path, text)

def found (places : List String) : Except RunFault (Option (String × String)) :=
  match firstFile? text? places with
  | none => .ok none
  | some (path, .ok text) => .ok (some (path, text))
  | some (path, .error fault) => .error (.templateUnreadable path fault)

def answer (reference : String) (directories : List String) : Except RunFault String :=
  match firstFile? text? (candidates reference directories) with
  | none => .error (.templateNotFound reference (candidates reference directories))
  | some (_, .ok text) => .ok text
  | some (path, .error fault) => .error (.templateUnreadable path fault)

theorem found_cons (path : String) (rest : List String) : found text? (path :: rest) =
    match loaded text? path with
    | .error fault => .error fault
    | .ok (some text) => .ok (some (path, text))
    | .ok none => found text? rest := by
  unfold found loaded firstFile?
  rw [List.findSome?_cons]
  cases text? path with
  | none => rfl
  | some read => cases read <;> rfl

/-! ## What the cache tells -/

/-- Whether paths of the same components lead to the same text. -/
def Coherent (paths : List String) : Prop :=
  ∀ p ∈ paths, ∀ q ∈ paths, FilePath.components p = FilePath.components q → text? p = text? q

/-- Whether the cache tells of these paths what is there. -/
def Faithful (paths : List String) (cache : TemplateCache) : Prop :=
  ∀ path ∈ paths, ∀ found, cache.lookup (FilePath.components path) = some found → text? path = found.map .ok

variable {text?} {σ : Type} {ask : String → StateM σ (Option (Except ReadFault String))} {s : σ}
  (hask : ∀ path, ask path s = (text? path, s)) {paths : List String} (hcoherent : Coherent text? paths)
  {cache : TemplateCache} (hcache : Faithful text? paths cache)

include hcoherent hcache in
theorem faithful_cons {path : String} (hpath : path ∈ paths) {found : Option String}
    (hfound : text? path = found.map .ok) : Faithful text? paths ((FilePath.components path, found) :: cache) := by
  intro other hother found' hlookup
  rw [lookup_cons_ite] at hlookup
  by_cases h : FilePath.components other = FilePath.components path
  · rw [if_pos h] at hlookup
    cases hlookup
    rw [hcoherent other hother path hpath h, hfound]
  · rw [if_neg h] at hlookup
    exact hcache other hother found' hlookup

include hask hcoherent hcache in
theorem load_faithful {path : String} (hpath : path ∈ paths) : ∃ cache',
    load ask path cache s = ((loaded text? path, cache'), s) ∧ Faithful text? paths cache' := by
  unfold load loaded
  cases hlookup : cache.lookup (FilePath.components path) with
  | some found =>
    rw [hcache path hpath found hlookup]
    refine ⟨cache, ?_, hcache⟩
    cases found <;> rfl
  | none =>
    dsimp only
    rw [StateM.bind_run (hask path)]
    cases htext : text? path with
    | none => exact ⟨_, rfl, faithful_cons hcoherent hcache hpath htext⟩
    | some read =>
      cases read with
      | ok text => exact ⟨_, rfl, faithful_cons hcoherent hcache hpath htext⟩
      | error fault => exact ⟨cache, rfl, hcache⟩ -- not remembered

include hask hcoherent in
theorem search_faithful (places : List String) (hplaces : ∀ path ∈ places, path ∈ paths) {cache : TemplateCache}
    (hcache : Faithful text? paths cache) : ∃ cache',
      search ask cache places s = ((found text? places, cache'), s) ∧ Faithful text? paths cache' := by
  induction places generalizing cache with
  | nil => exact ⟨cache, rfl, hcache⟩
  | cons path rest ih =>
    obtain ⟨hpath, hrest⟩ := List.forall_mem_cons.mp hplaces
    obtain ⟨loadedCache, hload, hfaithful⟩ := load_faithful hask hcoherent hcache hpath
    rw [search, StateM.bind_run hload, found_cons]
    cases loaded text? path with
    | error fault => exact ⟨loadedCache, rfl, hfaithful⟩
    | ok result =>
      cases result with
      | some text => exact ⟨loadedCache, rfl, hfaithful⟩
      | none => exact ih hrest hfaithful

include hask hcoherent in
theorem read_faithful (reference : String) (directories : List String)
    (hplaces : ∀ path ∈ candidates reference directories, path ∈ paths) {cache : TemplateCache}
    (hcache : Faithful text? paths cache) : ∃ answered cache',
      read ask directories reference cache s = ((answered, cache'), s) ∧
      answered.map Prod.snd = answer text? reference directories ∧ Faithful text? paths cache' := by
  obtain ⟨cache', hsearch, hfaithful⟩ := search_faithful hask hcoherent _ hplaces hcache
  unfold read answer
  rw [StateM.bind_run hsearch]
  unfold found
  cases firstFile? text? (candidates reference directories) with
  | none => exact ⟨_, cache', rfl, rfl, hfaithful⟩
  | some entry =>
    obtain ⟨path, read⟩ := entry
    cases read <;> exact ⟨_, cache', rfl, rfl, hfaithful⟩

end

end Templates

/-! ## Readers on a machine -/

theorem FileSystem.text_eq (fs : FileSystem) (path : String) : fs.text? path =
    if fs.isFile path then
      some (match fs.read path with
        | .ok content => textOf content
        | .error error => .error (.system error))
    else none := by
  unfold text? isFile read
  cases fs.locate path with
  | error _ => rfl
  | ok entry =>
    obtain ⟨location, node⟩ := entry
    cases node <;> rfl

namespace Machine

def ask (path : String) : StateM Machine (Option (Except ReadFault String)) := do
  if ← platform.isFile path then return some (← platform.readText path) else return none

theorem ask_eq (machine : Machine) (path : String) : ask path machine = (machine.files.text? path, machine) := by
  have hisFile : platform.isFile path machine = (machine.files.isFile path, machine) := rfl
  have hread : platform.read path machine = (machine.files.read path, machine) := rfl
  unfold ask
  rw [StateM.bind_run hisFile, FileSystem.text_eq]
  by_cases h : machine.files.isFile path = true
  · rw [if_pos h, if_pos h, Platform.readText, bind_assoc, StateM.bind_run hread]
    cases machine.files.read path <;> rfl
  · rw [if_neg h, if_neg h]
    rfl

/-- The answers to calls on one reader, one after another. A call has a reference and the directories to
search. -/
def answers : List (String × List String) → TemplateCache → Machine → List (Except RunFault String)
  | [], _, _ => []
  | (reference, directories) :: rest, cache, machine =>
    let ((answer, cache), machine) := Source.files platform directories reference cache machine
    answer :: answers rest cache machine

section
variable {fs : FileSystem} {paths : List String} (hcoherent : Templates.Coherent fs.text? paths)

include hcoherent in
theorem files_faithful (machine : Machine) (hfiles : machine.files = fs) (reference : String)
    (directories : List String) (hplaces : ∀ path ∈ Templates.candidates reference directories, path ∈ paths)
    {cache : TemplateCache} (hcache : Templates.Faithful fs.text? paths cache) : ∃ cache' machine',
      Source.files platform directories reference cache machine =
        ((Templates.answer fs.text? reference directories, cache'), machine') ∧
      machine'.files = fs ∧ Templates.Faithful fs.text? paths cache' := by
  have hask (path : String) : ask path machine = (fs.text? path, machine) := hfiles ▸ ask_eq machine path
  obtain ⟨answered, cache', hread, hanswer, hfaithful⟩ :=
    Templates.read_faithful hask hcoherent reference directories hplaces hcache
  have hsource : Source.files platform directories reference cache machine = _ := StateM.bind_run hread _
  rw [hsource, ← hanswer]
  cases answered with
  | error fault => exact ⟨cache', machine, rfl, hfiles, hfaithful⟩
  | ok entry => exact ⟨cache', _, rfl, hfiles, hfaithful⟩

include hcoherent in
theorem answers_eq (calls : List (String × List String))
    (hcalls : ∀ call ∈ calls, ∀ path ∈ Templates.candidates call.1 call.2, path ∈ paths)
    {cache : TemplateCache} (hcache : Templates.Faithful fs.text? paths cache) (machine : Machine)
    (hfiles : machine.files = fs) :
    answers calls cache machine = calls.map fun call => Templates.answer fs.text? call.1 call.2 := by
  induction calls generalizing cache machine with
  | nil => rfl
  | cons call rest ih =>
    obtain ⟨reference, directories⟩ := call
    obtain ⟨hplaces, hrest⟩ := List.forall_mem_cons.mp hcalls
    obtain ⟨cache', machine', hcall, hfiles', hfaithful⟩ :=
      files_faithful hcoherent machine hfiles reference directories hplaces hcache
    rw [answers, hcall, List.map_cons]
    exact congrArg _ (ih hrest hfaithful machine' hfiles')

end

/-! ## Paths asked for alone -/

/-- What a cached entry answers to a reference that is looked for in one place. -/
def remembered (reference : String) : Option String → Except RunFault String
  | none => .error (.templateNotFound reference [reference])
  | some text => .ok text

theorem candidates_lone (path : String) : Templates.candidates path [""] = [path] := by
  unfold Templates.candidates
  by_cases h : FilePath.isAbsolute path = true
  · rw [if_pos h]
  · rw [if_neg h, List.map_cons, List.map_nil, FilePath.join, if_neg h]
    simp

theorem answer_lone (text? : String → Option (Except ReadFault String)) (path : String) (found : Option String) :
    Templates.answer text? path [""] = remembered path found ↔ text? path = found.map .ok := by
  unfold Templates.answer
  rw [candidates_lone]
  unfold Templates.firstFile?
  rw [List.findSome?_cons]
  cases text? path with
  | none => cases found <;> simp [remembered]
  | some read => cases read <;> cases found <;> simp [remembered]

theorem files_lone {path : String} {found : Option String} {cache cache' : TemplateCache} {machine : Machine}
    (hload : Templates.load ask path cache machine = ((.ok found, cache'), machine)) : ∃ machine',
    Source.files platform [""] path cache machine = ((remembered path found, cache'), machine') := by
  have hsearch : Templates.search ask cache [path] machine =
      ((.ok (found.map fun text => (path, text)), cache'), machine) := by
    rw [Templates.search, StateM.bind_run hload]
    cases found <;> rfl
  have hread : Templates.read ask [""] path cache machine =
      ((match found with
        | none => .error (.templateNotFound path [path])
        | some text => .ok (path, text), cache'), machine) := by
    unfold Templates.read
    rw [candidates_lone, StateM.bind_run hsearch]
    cases found <;> rfl
  have hsource : Source.files platform [""] path cache machine = _ := StateM.bind_run hread _
  rw [hsource]
  cases found with
  | none => exact ⟨_, rfl⟩
  | some text => exact ⟨_, rfl⟩

/-- What is remembered of a path is answered for every path of the same components. -/
theorem answers_remembered {p q : String} (hkey : FilePath.components p = FilePath.components q) {machine : Machine}
    {found : Option String} (hp : machine.files.text? p = found.map .ok) :
    answers [(p, [""]), (q, [""])] [] machine = [remembered p found, remembered q found] := by
  have hmiss : Templates.load ask p [] machine = ((.ok found, [(FilePath.components p, found)]), machine) := by
    unfold Templates.load
    rw [List.lookup_nil]
    dsimp only
    rw [StateM.bind_run (ask_eq machine p), hp]
    cases found <;> rfl
  have hhit (machine : Machine) : Templates.load ask q [(FilePath.components p, found)] machine =
      ((.ok found, [(FilePath.components p, found)]), machine) := by
    unfold Templates.load
    rw [lookup_cons_ite, if_pos hkey.symm]
    rfl
  obtain ⟨machine', hfirst⟩ := files_lone hmiss
  obtain ⟨machine'', hsecond⟩ := files_lone (hhit machine')
  rw [answers, hfirst]
  dsimp only
  rw [answers, hsecond]
  rfl

theorem notText_of_text {fs : FileSystem} {path : String} {fault : ReadFault}
    (h : fs.text? path = some (.error fault)) : fault = .notText := by
  unfold FileSystem.text? at h
  split at h
  · have htext := Option.some.inj h
    unfold textOf at htext
    split at htext
    · cases htext
    · cases htext; rfl
  · cases h

theorem coherent_of_answers {machine : Machine} {paths : List String}
    (h : ∀ calls : List (String × List String),
      (∀ call ∈ calls, ∀ path ∈ Templates.candidates call.1 call.2, path ∈ paths) →
      answers calls [] machine = calls.map fun call => Templates.answer machine.files.text? call.1 call.2) :
    Templates.Coherent machine.files.text? paths := by
  have hsame {p q : String} (hp : p ∈ paths) (hq : q ∈ paths)
      (hkey : FilePath.components p = FilePath.components q) (found : Option String)
      (hfound : machine.files.text? p = found.map .ok) : machine.files.text? q = found.map .ok := by
    have hplaces : ∀ call ∈ [(p, [""]), (q, [""])],
        ∀ path ∈ Templates.candidates call.1 call.2, path ∈ paths := by
      simp [candidates_lone, hp, hq]
    have hanswers := h _ hplaces
    rw [answers_remembered hkey hfound] at hanswers
    have hsecond := (List.cons.inj (List.cons.inj hanswers).2).1
    exact (answer_lone _ q found).mp hsecond.symm
  intro p hp q hq hkey
  cases htext : machine.files.text? p with
  | none => exact (hsame hp hq hkey none htext).symm
  | some read =>
    cases read with
    | ok text => exact (hsame hp hq hkey (some text) htext).symm
    | error fault =>
      -- a file that is no text is not remembered, so the calls are made the other way round
      cases hother : machine.files.text? q with
      | none => rw [hsame hq hp hkey.symm none hother] at htext; cases htext
      | some read' =>
        cases read' with
        | ok text => rw [hsame hq hp hkey.symm (some text) hother] at htext; cases htext
        | error fault' => rw [notText_of_text htext, notText_of_text hother]

/-- **When the cache is transparent.** Every sequence of calls that looks at some of these paths is answered, call
by call, with the first of the candidate paths where there is a file, as on a fresh reader, exactly when
the paths are coherent. Paths that end in a component are. -/
theorem answers_transparent (machine : Machine) (paths : List String) :
    ((∀ calls : List (String × List String),
      (∀ call ∈ calls, ∀ path ∈ Templates.candidates call.1 call.2, path ∈ paths) →
      answers calls [] machine = calls.map (fun call => Templates.answer machine.files.text? call.1 call.2) ∧
      ∀ call ∈ calls, answers [call] [] machine = [Templates.answer machine.files.text? call.1 call.2]) ↔
        Templates.Coherent machine.files.text? paths) ∧
    ((∀ path ∈ paths, IsDefinite path) → Templates.Coherent machine.files.text? paths) := by
  have hempty : Templates.Faithful machine.files.text? paths [] := by
    intro path _ found hlookup
    cases hlookup
  refine ⟨⟨fun h => coherent_of_answers fun calls hcalls => (h calls hcalls).1, ?_⟩, ?_⟩
  · intro hcoherent calls hcalls
    refine ⟨answers_eq hcoherent calls hcalls hempty machine rfl, fun call hcall => ?_⟩
    refine answers_eq hcoherent [call] ?_ hempty machine rfl
    rintro _ hmem
    rw [List.mem_singleton.mp hmem]
    exact hcalls call hcall
  · intro hdefinite p hp q hq hkey
    exact machine.files.text_eq_of_components (hdefinite p hp) (hdefinite q hq) hkey

def letterMachine : Machine := .ofFiles ⟨[(["a"], .file "A".toUTF8)], []⟩

/-- One file under three spellings and a file that is missing. -/
def spelledCalls : List (String × List String) := [("a", ["."]), ("b", ["."]), ("a", ["./"]), ("a", [".//"])]

theorem spelled_calls_answered : (∀ path ∈ ["./a", "./b", "./a", ".//a"], IsDefinite path) ∧
    answers spelledCalls [] letterMachine =
      [.ok "A", .error (.templateNotFound "b" ["./b"]), .ok "A", .ok "A"] ∧
    answers [("a", [".//"])] [] letterMachine = [.ok "A"] := by
  have hdefinite : ∀ path ∈ ["./a", "./b", "./a", ".//a"], IsDefinite path := by
    simp only [List.forall_mem_cons]
    exact ⟨⟨⟨[], "a", rfl, rfl⟩, by decide⟩, ⟨⟨[], "b", rfl, rfl⟩, by decide⟩,
      ⟨⟨[], "a", rfl, rfl⟩, by decide⟩, ⟨⟨[""], "a", rfl, rfl⟩, by decide⟩, List.forall_mem_nil _⟩
  have hplaces : ∀ call ∈ spelledCalls, ∀ path ∈ Templates.candidates call.1 call.2,
      path ∈ ["./a", "./b", "./a", ".//a"] := by decide
  obtain ⟨htransparent, hcoherent⟩ := answers_transparent letterMachine ["./a", "./b", "./a", ".//a"]
  obtain ⟨hall, hfresh⟩ := htransparent.mpr (hcoherent hdefinite) spelledCalls hplaces
  exact ⟨hdefinite, hall, hfresh _ (by simp [spelledCalls])⟩

/-- A slash at the end is no component: what was remembered of `a/` is answered for `a`, and the other way
round. -/
theorem slash_hides_file :
    answers [("a/", ["."]), ("a", ["."])] [] letterMachine =
      [.error (.templateNotFound "a/" ["./a/"]), .error (.templateNotFound "a" ["./a"])] ∧
    answers [("a", ["."]), ("a/", ["."])] [] letterMachine = [.ok "A", .ok "A"] ∧
    answers [("a", ["."])] [] letterMachine = [.ok "A"] ∧
    answers [("a/", ["."])] [] letterMachine = [.error (.templateNotFound "a/" ["./a/"])] := by
  refine ⟨rfl, rfl, rfl, rfl⟩

end Machine

end TestMatrix
