import OriginTags.Proofs.Dictionary
import OriginTags.Proofs.Tagging.Session
import Mathlib.Data.List.Perm.Basic
/-!
# What came before

A tagger carries nothing from one module to the next but its counters, and these do not depend on the
order of the modules. So a module gets the same text whatever was done before, and modules that are
transformed in another order are counted alike.
-/

namespace OriginTags

/-! ## Counting in any order -/

namespace Statistics

theorem countName_comm (counts : Dictionary Nat) (a b : String) :
    countName (countName counts a) b = countName (countName counts b) a := by
  by_cases hsame : a = b
  · rw [hsame]
  · refine Dictionary.ext_get? fun name => ?_
    simp only [countName, Dictionary.get?_insert, if_neg hsame, if_neg (Ne.symm hsame)]
    by_cases hname : name = a
    · simp [hname, hsame]
    · simp [hname]

instance : RightCommutative countName := ⟨countName_comm⟩

/-- The names of two files are counted alike in either order. -/
theorem foldl_countName_comm (first second : List String) (counts : Dictionary Nat) :
    second.foldl countName (first.foldl countName counts) =
      first.foldl countName (second.foldl countName counts) := by
  rw [← List.foldl_append, ← List.foldl_append]
  exact List.perm_append_comm.foldl_eq counts

end Statistics

/-- What a step adds to the counters. -/
inductive Tally
  | nothing
  | failed
  | tagged (names : List String)

namespace Tally

/-- The counters with a tally added. -/
def addTo (s : Statistics) : Tally → Statistics
  | .nothing => s
  | .failed => Tagger.countFailed s
  | .tagged names => Tagger.countTagged s names

theorem addTo_comm (s : Statistics) (a b : Tally) : b.addTo (a.addTo s) = a.addTo (b.addTo s) := by
  cases a with
  | nothing => rfl
  | failed => cases b <;> rfl
  | tagged names =>
      cases b with
      | nothing => rfl
      | failed => rfl
      | tagged others =>
          simp only [addTo, Tagger.countTagged, Statistics.commit,
            Statistics.foldl_countName_comm names others]
          congr 1
          omega

instance : RightCommutative fun (s : Statistics) (tally : Tally) => tally.addTo s := ⟨addTo_comm⟩

end Tally

/-! ## Modules -/

namespace Tagger

instance (config : Config) (id : String) : Decidable (Skips config id) :=
  decidable_of_iff _ skips_iff.symm

/-- What transforming a module comes to: what is counted, and the text that the module gets. -/
def verdict (config : Config) (code id : String) : Tally × Option Spliced :=
  if Skips config id then (.nothing, none)
  else
    match SourceModule.parse code (modulePath id) with
    | .error _ => (.failed, none)
    | .ok m =>
      let outcome := (tagModule config code (moduleFile config id) m).value
      (.tagged outcome.tagged, outcome.output)

theorem value_transform_eq (t : Tagger) (code id : String) :
    (t.transform code id).value =
      ({ t with statistics := (verdict t.config code id).1.addTo t.statistics },
        (verdict t.config code id).2) := by
  unfold verdict
  split
  case isTrue hskips =>
    rw [value_transform_of_skips hskips]
    rfl
  case isFalse hpasses =>
    rw [transform_of_not_skips hpasses, value_process]
    cases SourceModule.parse code (modulePath id) <;> rfl

end Tagger

/-! ## Sessions -/

/-- What a step adds to the counters of a session with a configuration. Finishing a run adds nothing,
and neither does a change to the files. -/
def Step.tally (config : Config) (x : Step) : Tally :=
  match x.action with
  | .transform code id => (Tagger.verdict (config.withHooks x.hooks) code id).1
  | .finish _ | .edit _ => .nothing

namespace Session

theorem output_transform (s : Session) (hooks : Hooks) (code id : String) :
    (s.snapshot ⟨hooks, .transform code id⟩).output =
      (Tagger.verdict (s.config.withHooks hooks) code id).2 := by
  have hvalue := (s.tagger hooks).value_transform_eq code id
  exact congrArg Prod.snd hvalue

theorem statistics_next (s : Session) (x : Step) :
    (s.next x).statistics = (x.tally s.config).addTo s.statistics := by
  obtain ⟨hooks, action⟩ := x
  cases action with
  | transform code id =>
      have hvalue := (s.tagger hooks).value_transform_eq code id
      exact congrArg (fun result => result.1.statistics) hvalue
  | finish order => rfl
  | edit files => rfl

/-- A session keeps its configuration. -/
theorem config_after (s : Session) (steps : List Step) : (s.after steps).config = s.config := by
  induction steps generalizing s with
  | nil => rfl
  | cons x steps ih =>
      rw [after, List.foldl_cons]
      exact (ih (s.next x)).trans (s.config_next x)

/-- The counters of a session are those it began with and the tallies of its steps. -/
theorem statistics_after (s : Session) (steps : List Step) :
    (s.after steps).statistics =
      (steps.map (Step.tally s.config)).foldl (fun counters tally => tally.addTo counters)
        s.statistics := by
  induction steps generalizing s with
  | nil => rfl
  | cons x steps ih =>
      have hrest := ih (s.next x)
      rw [config_next, statistics_next] at hrest
      exact hrest

/-- Neither what was done before nor the files decide what a module gets: after any two histories of
one configuration, with whatever hooks, a call with the same hooks gives the same text and the same
map. And the counters do not depend on the order of calls: two sessions in which the same things
happen in another order end with the same statistics. -/
theorem independent_of_order (config : Config) (files files' : FileTree) :
    (∀ (history history' : List Step) (hooks : Hooks) (code id : String),
      (snapshot (after { config, files } history) ⟨hooks, .transform code id⟩).output =
        (snapshot (after { config, files := files' } history') ⟨hooks, .transform code id⟩).output) ∧
    ∀ steps steps' : List Step, steps.Perm steps' →
      (after { config, files } steps).statistics =
        (after { config, files := files' } steps').statistics := by
  refine ⟨fun history history' hooks code id => ?_, fun steps steps' hperm => ?_⟩
  · rw [output_transform, output_transform, config_after, config_after]
  · rw [statistics_after, statistics_after]
    exact (hperm.map (Step.tally config)).foldl_eq _

/-- Three modules in two orders, one of them no program, and a run that is finished in between. -/
theorem independent_of_order_finished :
    let hooks : Hooks := { shouldTag := some fun context => .ok (context.elementName != "i") }
    let first : Step := ⟨hooks, .transform "<a><b/><i/></a>" "x.tsx"⟩
    let second : Step := ⟨hooks, .transform "<b" "y.tsx"⟩
    let third : Step := ⟨hooks, .transform "<b/>" "z.tsx"⟩
    let finish : Step := ⟨hooks, .finish .sorted⟩
    let config : Config := {}
    [first, second, finish, third].Perm [third, finish, second, first] ∧
      (after { config, files := ⟨[]⟩ }
        [first, second, finish, third]).statistics.byElementType.entries = [("a", 1), ("b", 2)] ∧
      (after { config, files := ⟨[]⟩ } [first, second, finish, third]).statistics =
        (after { config, files := ⟨[]⟩ } [third, finish, second, first]).statistics := by
  intro hooks first second third finish config
  have hperm : [first, second, finish, third].Perm [third, finish, second, first] :=
    List.reverse_perm [third, finish, second, first]
  exact ⟨hperm, by decide +kernel, (independent_of_order config ⟨[]⟩ ⟨[]⟩).2 _ _ hperm⟩

end Session

end OriginTags
