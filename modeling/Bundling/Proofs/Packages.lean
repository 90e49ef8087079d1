import Mathlib.Data.String.Basic
import Bundling.Proofs.Paths
import Bundling.Resolve.Install

/-!
# Packages of requests

The package of a request is the name in front of it: one segment or, behind a scope, two. All requests of one package,
and no others, have this package (`Request.package?_eq_some_iff`), since the end that is counted in octets is the end of
the name. An installation is made under the package as its key, so all requests of one package share one lock
(`Install.key_of_package`).
-/

namespace Bundling

/-! ## Texts that are cut -/

/-- Behind the octets of a front the text is cut into this front and the rest. -/
theorem Text.Utf8.front?_append (s rest : List Char) : front? (String.ofList s).utf8ByteSize (s ++ rest) = some s := by
  rw [String.utf8ByteSize_ofList]
  induction s with
  | nil => cases rest <;> rfl
  | cons c s ih =>
    have positive := c.utf8Size_pos
    have whole := String.utf8Len_cons c s
    obtain ⟨octets,size⟩ : ∃ octets, String.utf8Len (c :: s) = octets + 1 := Nat.exists_eq_succ_of_ne_zero (by omega)
    have left : octets + 1 - c.utf8Size = String.utf8Len s := by omega
    rw [size,List.cons_append,front?,if_neg (by omega),left,ih]
    rfl

namespace Request

/-- What stands behind a segment: nothing, or a separator and more. -/
def further (behind : Option (List Char)) : List Char := behind.elim [] ('/' :: ·)

/-- Every text begins with a segment. -/
theorem exists_segment (text : List Char) : ∃ s behind, '/' ∉ s ∧ text = s ++ further behind := by
  by_cases slash : '/' ∈ text
  · obtain ⟨s,rest,split,plain⟩ := List.eq_append_cons_of_mem slash
    exact ⟨s,some rest,plain,split⟩
  · exact ⟨text,none,slash,(List.append_nil text).symm⟩

theorem splitOn_append_further {s : List Char} (plain : '/' ∉ s) (behind : Option (List Char)) :
    (s ++ further behind).splitOn '/' = s :: behind.elim [] (·.splitOn '/') := by
  cases behind with
  | none => rw [further,Option.elim_none,List.append_nil,List.splitOn_eq_singleton plain,Option.elim_none]
  | some rest => exact List.splitOn_append_cons_self_of_not_mem plain rest

theorem further_append_slash (behind : Option (List Char)) (rest : List Char) :
    further behind ++ '/' :: rest = further (some (behind.elim rest (· ++ '/' :: rest))) := by
  cases behind <;> rfl

theorem firstSegment_append_further {s : List Char} (plain : '/' ∉ s) (behind : Option (List Char)) :
    firstSegment (s ++ further behind) = (s,behind) := by
  induction s with
  | nil => cases behind <;> rfl
  | cons c s ih =>
    have parts : '/' ≠ c ∧ '/' ∉ s := by simpa using plain
    rw [List.cons_append,firstSegment,if_neg (Ne.symm parts.1),ih parts.2]

theorem nextFilled?_append_further {s : List Char} (plain : '/' ∉ s) (behind : Option (List Char)) :
    nextFilled? (some (s ++ further behind)) = if s = [] then none else some (s,behind) := by
  rw [nextFilled?,Option.map_some,firstSegment_append_further plain]
  cases s <;> rfl

/-! ## Names of packages -/

/-- A package's name: no segment of it is empty, and it has one separator if it starts with a scope, and none otherwise. -/
structure IsPackage (p : String) : Prop where
  filled : [] ∉ p.toList.splitOn '/'
  slashes : p.toList.count '/' = if p.toList.head? = some '@' then 1 else 0

/-- A request of a package is its name alone, or goes on behind it. -/
def OfPackage (p request : String) : Prop := request = p ∨ ∃ rest, request = p ++ "/" ++ rest

/-- A request without a package: its first segment is empty, or is a scope that no segment follows but an empty one. -/
def Nameless (request : String) : Prop :=
  (request.toList.splitOn '/')[0]? = some [] ∨
    (∃ scope, (request.toList.splitOn '/')[0]? = some ('@' :: scope)) ∧
      ∀ name, (request.toList.splitOn '/')[1]? = some name → name = []

/-- A name as its characters: a segment that is no scope, or a scope and a segment. -/
inductive Named : List Char → Prop where
  | lone {s : List Char} (filled : s ≠ []) (plain : '/' ∉ s) (unmarked : s.head? ≠ some '@') : Named s
  | marked {scope name : List Char} (plain : '/' ∉ scope) (filled : name ≠ []) (plain' : '/' ∉ name) :
      Named ('@' :: scope ++ '/' :: name)

variable {p request : String}

theorem isPackage_iff : IsPackage p ↔ Named p.toList := by
  constructor
  · rintro ⟨filled,slashes⟩
    obtain ⟨s,behind,plain,split⟩ := exists_segment p.toList
    rw [split,splitOn_append_further plain,List.mem_cons,not_or] at filled
    have first := filled.1
    have before : s.count '/' = 0 := List.count_eq_zero.mpr plain
    rw [split,List.count_append,before,Nat.zero_add,List.head?_append_of_ne_nil _ (Ne.symm first)] at slashes
    rw [split]
    cases behind with
    | none =>
      have unmarked : s.head? ≠ some '@' := fun marked => by simp [further,marked] at slashes
      rw [further,Option.elim_none,List.append_nil]
      exact .lone (Ne.symm first) plain unmarked
    | some rest =>
      have marked : s.head? = some '@' := by
        by_contra unmarked
        simp [further,unmarked] at slashes
      have plain' : '/' ∉ rest := by
        rw [if_pos marked,further,Option.elim_some,List.count_cons_self] at slashes
        exact List.count_eq_zero.mp (by omega)
      have second : rest ≠ [] := fun empty => filled.2 (by rw [empty]; exact List.mem_singleton.mpr rfl)
      obtain ⟨scope,rfl⟩ := List.head?_eq_some_iff.mp marked
      exact .marked (fun slash => plain (List.mem_cons_of_mem _ slash)) second plain'
  · intro named
    generalize text : p.toList = cs at named
    cases named with
    | lone filled plain unmarked =>
      refine ⟨?_,?_⟩
      · rw [text,List.splitOn_eq_singleton plain]
        simpa using filled
      · rw [text,if_neg unmarked,List.count_eq_zero.mpr plain]
    | @marked scope name plain filled plain' =>
      have here : '/' ∉ '@' :: scope := by simpa using plain
      refine ⟨?_,?_⟩
      · rw [text,List.splitOn_append_cons_self_of_not_mem here,List.splitOn_eq_singleton plain']
        simpa using filled.symm
      · rw [text,List.count_append,List.count_cons_self,List.count_eq_zero.mpr here,List.count_eq_zero.mpr plain']
        rfl

theorem ofPackage_iff : OfPackage p request ↔ ∃ behind, request.toList = p.toList ++ further behind := by
  constructor
  · rintro (rfl | ⟨rest,rfl⟩)
    · exact ⟨none,(List.append_nil _).symm⟩
    · exact ⟨some rest.toList,by simp [further]⟩
  · rintro ⟨_ | rest,split⟩
    · exact .inl (String.toList_injective (split.trans (List.append_nil _)))
    · exact .inr ⟨String.ofList rest,String.toList_injective (by simp [split,further])⟩

theorem nameless_iff {first : List Char} {behind : Option (List Char)} (plain : '/' ∉ first)
    (split : request.toList = first ++ further behind) :
    Nameless request ↔ first = [] ∨ first.head? = some '@' ∧ nextFilled? behind = none := by
  have scope : (∃ scope, some first = some ('@' :: scope)) ↔ first.head? = some '@' := by
    simp [List.head?_eq_some_iff]
  rw [Nameless,split,splitOn_append_further plain,List.getElem?_cons_zero,scope,Option.some.injEq]
  refine or_congr_right (and_congr_right fun _ => ?_)
  cases behind with
  | none => exact iff_of_true nofun rfl
  | some more =>
    obtain ⟨name,behind,plain',rfl⟩ := exists_segment more
    rw [nextFilled?_append_further plain',Option.elim_some,splitOn_append_further plain']
    simp

/-! ## The package of a request -/

theorem packageEnd?_append_further {first : List Char} {behind : Option (List Char)} (plain : '/' ∉ first) (filled : first ≠ [])
    (split : request.toList = first ++ further behind) : packageEnd? request =
      if first.head? = some '@' then
        (nextFilled? behind).map fun next => (String.ofList first).utf8ByteSize + (1 + (String.ofList next.1).utf8ByteSize)
      else some (String.ofList first).utf8ByteSize := by
  rw [packageEnd?,split,nextFilled?_append_further plain,if_neg filled]
  by_cases marked : first.head? = some '@'
  · rw [if_pos marked]
    cases next : nextFilled? behind <;> simp [marked,next]
  · simp [marked]

/-- Behind a name the count of octets stands at its end. -/
theorem packageEnd?_of_package (named : IsPackage p) (belongs : OfPackage p request) :
    packageEnd? request = some p.utf8ByteSize := by
  obtain ⟨behind,split⟩ := ofPackage_iff.mp belongs
  rw [← String.ofList_toList (s := p)]
  replace named := isPackage_iff.mp named
  generalize p.toList = cs at named split
  cases named with
  | lone filled plain unmarked => rw [packageEnd?_append_further plain filled split,if_neg unmarked]
  | @marked scope name plain filled plain' =>
    have here : '/' ∉ '@' :: scope := by simpa using plain
    have text : request.toList = '@' :: scope ++ further (some (name ++ further behind)) := by
      rw [split,List.append_assoc]
      rfl
    have separator : ('/' : Char).utf8Size = 1 := rfl
    rw [packageEnd?_append_further here (List.cons_ne_nil _ _) text,if_pos List.head?_cons,nextFilled?_append_further plain',
      if_neg filled,Option.map_some]
    simp only [String.utf8ByteSize_ofList,String.utf8Len_append,String.utf8Len_cons,separator,Option.some.injEq]
    omega

theorem packageEnd?_of_nameless (nameless : Nameless request) : packageEnd? request = none := by
  obtain ⟨first,behind,plain,split⟩ := exists_segment request.toList
  by_cases empty : first = []
  · rw [packageEnd?,split,nextFilled?_append_further plain,if_pos empty]
    rfl
  · obtain ⟨marked,last⟩ := ((nameless_iff plain split).mp nameless).resolve_left empty
    rw [packageEnd?_append_further plain empty split,if_pos marked,last,Option.map_none]

theorem named_or_nameless (request : String) : (∃ p, IsPackage p ∧ OfPackage p request) ∨ Nameless request := by
  have name {cs : List Char} (behind : Option (List Char)) (named : Named cs) (split : request.toList = cs ++ further behind) :
      ∃ p, IsPackage p ∧ OfPackage p request :=
    ⟨String.ofList cs,isPackage_iff.mpr (by rwa [String.toList_ofList]),ofPackage_iff.mpr ⟨behind,by rwa [String.toList_ofList]⟩⟩
  obtain ⟨first,behind,plain,split⟩ := exists_segment request.toList
  rw [nameless_iff plain split]
  by_cases filled : first = []
  · exact .inr (.inl filled)
  by_cases marked : first.head? = some '@'
  · cases behind with
    | none => exact .inr (.inr ⟨marked,rfl⟩)
    | some more =>
      obtain ⟨second,behind,plain',rfl⟩ := exists_segment more
      rw [nextFilled?_append_further plain']
      by_cases filled' : second = []
      · exact .inr (.inr ⟨marked,if_pos filled'⟩)
      · obtain ⟨scope,rfl⟩ := List.head?_eq_some_iff.mp marked
        refine .inl (name behind (.marked (fun slash => plain (List.mem_cons_of_mem _ slash)) filled' plain') ?_)
        rw [split,List.append_assoc]
        rfl
  · exact .inl (name behind (.lone filled plain marked) split)

/-- Every request of a package has it. -/
theorem package?_of_package (named : IsPackage p) (belongs : OfPackage p request) : package? request = some p := by
  obtain ⟨behind,split⟩ := ofPackage_iff.mp belongs
  have front := Text.Utf8.front?_append p.toList (further behind)
  rw [String.ofList_toList] at front
  rw [package?,packageEnd?_of_package named belongs,split]
  simp [front]

theorem package?_of_nameless (nameless : Nameless request) : package? request = none := by
  rw [package?,packageEnd?_of_nameless nameless]
  rfl

theorem package?_eq_some_iff : package? request = some p ↔ IsPackage p ∧ OfPackage p request := by
  refine ⟨fun found => ?_,fun ⟨named,belongs⟩ => package?_of_package named belongs⟩
  rcases named_or_nameless request with ⟨q,named,belongs⟩ | nameless
  · rw [package?_of_package named belongs] at found
    cases found
    exact ⟨named,belongs⟩
  · rw [package?_of_nameless nameless] at found
    cases found

theorem package?_eq_none_iff : package? request = none ↔ Nameless request := by
  refine ⟨fun absent => ?_,package?_of_nameless⟩
  rcases named_or_nameless request with ⟨q,named,belongs⟩ | nameless
  · rw [package?_of_package named belongs] at absent
    cases absent
  · exact nameless

/-- What is counted never ends inside of a character: it is the length of the package. -/
theorem packageEnd?_eq (request : String) : packageEnd? request = (package? request).map String.utf8ByteSize := by
  rcases named_or_nameless request with ⟨p,named,belongs⟩ | nameless
  · rw [packageEnd?_of_package named belongs,package?_of_package named belongs]
    rfl
  · rw [packageEnd?_of_nameless nameless,package?_of_nameless nameless]
    rfl

/-- The manifest of a package is asked for by a bare request. -/
theorem bare_manifest {package : String} (plain : request.toList.head? ≠ some '.')
    (named : package? request = some package) (rest : String) : isPath (package ++ "/" ++ rest) = false := by
  obtain ⟨named,belongs⟩ := package?_eq_some_iff.mp named
  obtain ⟨behind,split⟩ := ofPackage_iff.mp belongs
  obtain ⟨first,inner,plain',name⟩ := exists_segment package.toList
  -- The first segment of the package is that of the request.
  have filled : first ≠ [] := fun empty => named.filled (by rw [name,splitOn_append_further plain',empty]; exact List.mem_cons_self)
  rw [split,name,List.append_assoc,List.head?_append_of_ne_nil _ filled] at plain
  have text : (package ++ "/" ++ rest).toList = first ++ further (some (inner.elim rest.toList (· ++ '/' :: rest.toList))) := by
    rw [← further_append_slash,← List.append_assoc,← name]
    simp
  rw [isPath,text,firstSegment_append_further plain']
  cases first with
  | nil => exact absurd rfl filled
  | cons c cs =>
    have other : c ≠ '.' := fun same => plain (congrArg some same)
    simp [other]

end Request

/-! ## The key of an installation -/

namespace Activity

variable {σ : Type} {key : String}

/-- An activity may come to ask for the attempt of a key. What the attempts do in turn does not count. -/
inductive MayLock (key : String) : Activity σ → Prop where
  | this {a : Activity σ} {next : Resolved → Activity σ} : MayLock key (.share key a next)
  | step {f : σ → Activity σ × σ} (s : σ) (leads : MayLock key (f s).1) : MayLock key (.step f)
  | pause {rounds : Nat} {next : Activity σ} (leads : MayLock key next) : MayLock key (.pause rounds next)
  | ask {request : String} {importer : Option ModuleId} {next : Resolved → Activity σ} (r : Resolved)
      (leads : MayLock key (next r)) : MayLock key (.ask request importer next)
  | share {key' : String} {a : Activity σ} {next : Resolved → Activity σ} (r : Resolved) (leads : MayLock key (next r)) :
      MayLock key (.share key' a next)
  | pending {next : List String → Activity σ} (keys : List String) (leads : MayLock key (next keys)) :
      MayLock key (.pending next)

@[simp] theorem not_mayLock_answer (r : Resolved) : ¬ (answer r : Activity σ).MayLock key := nofun

@[simp] theorem not_mayLock_defer : ¬ (defer : Activity σ).MayLock key := nofun

@[simp] theorem mayLock_ask_iff {request : String} {importer : Option ModuleId} {next : Resolved → Activity σ} :
    (ask request importer next).MayLock key ↔ (∃ id, (next (.ok id)).MayLock key) ∨ ∃ e, (next (.error e)).MayLock key := by
  constructor
  · intro may
    cases may with
    | ask r leads =>
      cases r with
      | error e => exact .inr ⟨e,leads⟩
      | ok id => exact .inl ⟨id,leads⟩
  · rintro (⟨id,leads⟩ | ⟨e,leads⟩)
    · exact .ask (.ok id) leads
    · exact .ask (.error e) leads

@[simp] theorem mayLock_share_iff {key' : String} {a : Activity σ} {next : Resolved → Activity σ} :
    (share key' a next).MayLock key ↔
      key' = key ∨ (∃ id, (next (.ok id)).MayLock key) ∨ ∃ e, (next (.error e)).MayLock key := by
  constructor
  · intro may
    cases may with
    | this => exact .inl rfl
    | share r leads =>
      cases r with
      | error e => exact .inr (.inr ⟨e,leads⟩)
      | ok id => exact .inr (.inl ⟨id,leads⟩)
  · rintro (rfl | ⟨id,leads⟩ | ⟨e,leads⟩)
    · exact .this
    · exact .share (.ok id) leads
    · exact .share (.error e) leads

end Activity

namespace Install

open Request

variable {σ : Type} (installer : Installer σ) (options : Options) (filter : Filter) (callbacks : Callbacks σ) (root : Path)

/-- A resolver asks for one attempt at most, that of the package, and it may come to do so unless the request is foreign or
its importer is kept from it. -/
theorem mayLock_resolver_iff (request : String) (importer : Option ModuleId) (key : String) :
    ((resolver installer options filter callbacks root).resolve request importer).MayLock key ↔
      isForeign request = false ∧ filter.admits root importer = true ∧ package? request = some key := by
  have : Nonempty ResolveError := ⟨.notFound request importer⟩
  cases foreign : isForeign request with
  | true => simp [resolver,foreign]
  | false =>
    cases admitted : filter.admits root importer with
    | false => simp [resolver,foreign,admitted]
    | true => cases named : package? request <;> simp [resolver,foreign,admitted,named]

/-- The package of a request is a name that the request begins with, and it is found wherever a request is of this package:
the count of octets stops at the end of the name. There is none exactly where the request begins with no name. So the lock of
an installation has the same key for all requests of a package, whatever follows the name. -/
theorem key_of_package (request : String) :
    (∀ p, package? request = some p ↔ IsPackage p ∧ OfPackage p request) ∧
    packageEnd? request = (package? request).map String.utf8ByteSize ∧
    (package? request = none ↔ Nameless request) ∧
    ∀ p, package? request = some p → ∀ other, OfPackage p other → package? other = some p ∧
      ∀ importer key, ((resolver installer options filter callbacks root).resolve other importer).MayLock key ↔
        isForeign other = false ∧ filter.admits root importer = true ∧ key = p := by
  refine ⟨fun p => package?_eq_some_iff,packageEnd?_eq request,package?_eq_none_iff,fun p found other belongs => ?_⟩
  have named := (package?_eq_some_iff.mp found).1
  have same : package? other = some p := package?_of_package named belongs
  refine ⟨same,fun importer key => ?_⟩
  rw [mayLock_resolver_iff,same,Option.some.injEq,eq_comm (a := p)]

/-- A scope with a character of two octets, and a name with another: the package ends behind six octets, and a request of
something in it shares the lock with a request of the package itself. -/
theorem key_of_package_scope : package? "@é/ü/x" = some "@é/ü" ∧ packageEnd? "@é/ü/x" = some 6 ∧ package? "@é/ü" = some "@é/ü" ∧
    ∀ key, ((resolver (fun _ _ _ done => done (.ok ()) : Installer Unit) {} ⟨[],[]⟩ {} ⟨"/p"⟩).resolve "@é/ü" none).MayLock key ↔
      key = "@é/ü" := by
  have named : package? "@é/ü/x" = some "@é/ü" := by decide +kernel
  obtain ⟨-,counted,-,shared⟩ := key_of_package (fun _ _ _ done => done (.ok ()) : Installer Unit) {} ⟨[],[]⟩ {} ⟨"/p"⟩ "@é/ü/x"
  obtain ⟨same,locks⟩ := shared "@é/ü" named "@é/ü" (.inl rfl)
  refine ⟨named,?_,same,fun key => ?_⟩
  · rw [counted,named]
    rfl
  · exact (locks none key).trans ⟨fun ⟨_,_,this⟩ => this,fun this => ⟨by decide,rfl,this⟩⟩

end Install

end Bundling
