import Mathlib.Data.List.Basic

/-! # Options of the rebalance planner

`main` reads its options with `getopt(argc, argv, "c:l:n:b:r:h")`; its `switch` has a case
`'t'`, but the option string does not list `t`.
-/

namespace KosmosFs.RebalancePlanner

/-- Modelled from POSIX `getopt`: whether option `c` takes an argument (`none` when the option
string does not list it). -/
def takesArg : List Char → Char → Option Bool
  | [], _ => none
  | d :: ':' :: rest, c => if c = d then some true else takesArg rest c
  | d :: rest, c => if c = d then some false else takesArg rest c

/-- Modelled from POSIX `getopt`: the options of the cluster `cs` of one argument, given the
arguments after it; the options and the arguments left. -/
def getoptCluster (optstring : List Char) :
    List Char → List String → List (Char × String) × List String
  | [], rest => ([], rest)
  | c :: cs, rest =>
    if takesArg optstring c = some true then
      if cs = [] then
        match rest with
        | [] => ([('?', "")], [])
        | a :: rest => ([(c, a)], rest)
      else ([(c, String.mk cs)], rest)
    else
      ((if takesArg optstring c = none then '?' else c, "") ::
          (getoptCluster optstring cs rest).1, (getoptCluster optstring cs rest).2)

/-- Modelled from POSIX `getopt`, which stops at the first argument that is not an option (glibc
permutes `argv` instead): the options it returns, in order; `fuel` bounds the arguments read. -/
def getoptLoop (optstring : List Char) : Nat → List String → List (Char × String)
  | 0, _ => []
  | _ + 1, [] => []
  | fuel + 1, arg :: rest =>
    if arg = "--" then []
    else
      match arg.data with
      | '-' :: c :: cs =>
        (getoptCluster optstring (c :: cs) rest).1 ++
          getoptLoop optstring fuel (getoptCluster optstring (c :: cs) rest).2
      | _ => []

/-- `getopt(argc, argv, optstring)` over `argv` without the program name. -/
def getopt (optstring : String) (args : List String) : List (Char × String) :=
  getoptLoop optstring.data args.length args

/-- The settings `main` reads from its options. -/
structure Options where
  logdir : String
  cpdir : String
  networkFn : String
  chunkmapFn : String
  rebalancePlanFn : String
  help : Bool
  variationFromAvg : Int
  deriving DecidableEq, Repr

/-- The settings before the options are read. -/
def Options.init : Options := ⟨"", "", "", "", "", false, 10⟩

/-- One turn of the `switch (optchar)`; `atoi` is read as a decimal number, `0` otherwise. -/
def Options.set (o : Options) : Char × String → Options
  | ('l', optarg) => { o with logdir := optarg }
  | ('c', optarg) => { o with cpdir := optarg }
  | ('n', optarg) => { o with networkFn := optarg }
  | ('b', optarg) => { o with chunkmapFn := optarg }
  | ('r', optarg) => { o with rebalancePlanFn := optarg }
  | ('h', _) => { o with help := true }
  | ('t', optarg) => { o with variationFromAvg := optarg.toInt?.getD 0 }
  | _ => { o with help := true }

/-- The `while ((optchar = getopt(...)) != -1)` loop of `main`. -/
def parseOptions (args : List String) : Options :=
  (getopt "c:l:n:b:r:h" args).foldl Options.set Options.init

/-! ## The options `getopt` returns -/

/-- `getopt` returns only letters the option string lists, and `?`. -/
def Listed (optstring : List Char) (o : Char × String) : Prop :=
  o.1 = '?' ∨ takesArg optstring o.1 ≠ none

theorem getoptCluster_listed (optstring : List Char) :
    ∀ (cs : List Char) (rest : List String), ∀ o ∈ (getoptCluster optstring cs rest).1,
      Listed optstring o
  | [], _, o, ho => by cases ho
  | c :: cs, rest, o, ho => by
    unfold getoptCluster at ho
    split_ifs at ho with ht hn hn
    · split at ho <;> rw [List.mem_singleton.mp ho]
      · exact .inl rfl
      · exact .inr (by rw [ht]; simp)
    · rw [List.mem_singleton.mp ho]
      exact .inr (by rw [ht]; simp)
    · rcases List.mem_cons.mp ho with rfl | ho
      · exact .inl rfl
      · exact getoptCluster_listed optstring cs rest o ho
    · rcases List.mem_cons.mp ho with rfl | ho
      · exact .inr hn
      · exact getoptCluster_listed optstring cs rest o ho

theorem getoptLoop_listed (optstring : List Char) :
    ∀ (fuel : Nat) (args : List String), ∀ o ∈ getoptLoop optstring fuel args,
      Listed optstring o
  | 0, _, o, ho => by cases ho
  | _ + 1, [], o, ho => by cases ho
  | fuel + 1, arg :: rest, o, ho => by
    unfold getoptLoop at ho
    split_ifs at ho
    · cases ho
    · split at ho
      · rcases List.mem_append.mp ho with ho | ho
        · exact getoptCluster_listed optstring _ rest o ho
        · exact getoptLoop_listed optstring fuel _ o ho
      · cases ho

theorem set_variationFromAvg (o : Options) (x : Char × String) (hx : x.1 ≠ 't') :
    (o.set x).variationFromAvg = o.variationFromAvg := by
  obtain ⟨c, a⟩ := x
  by_cases hl : c = 'l'; · subst hl; rfl
  by_cases hc : c = 'c'; · subst hc; rfl
  by_cases hn : c = 'n'; · subst hn; rfl
  by_cases hb : c = 'b'; · subst hb; rfl
  by_cases hr : c = 'r'; · subst hr; rfl
  by_cases hh : c = 'h'; · subst hh; rfl
  unfold Options.set Options.set.match_1
  dsimp only at hx ⊢
  rw [dif_neg hl, dif_neg hc, dif_neg hn, dif_neg hb, dif_neg hr, dif_neg hh, dif_neg hx]

/-- The planner's variation from the average utilization is `10`, whatever the arguments. -/
theorem parseOptions_variationFromAvg (args : List String) :
    (parseOptions args).variationFromAvg = 10 := by
  have ht : ∀ o ∈ getopt "c:l:n:b:r:h" args, o.1 ≠ 't' := fun o ho he => by
    rcases getoptLoop_listed _ _ _ o ho with h | h <;> rw [he] at h
    · cases h
    · exact h rfl
  unfold parseOptions
  generalize getopt "c:l:n:b:r:h" args = os at ht
  suffices ∀ o₀ : Options, (os.foldl Options.set o₀).variationFromAvg = o₀.variationFromAvg from
    this Options.init
  induction os with
  | nil => exact fun _ => rfl
  | cons x os ih =>
    intro o₀
    rw [List.foldl_cons, ih (fun o ho => ht o (List.mem_cons_of_mem _ ho)),
      set_variationFromAvg _ _ (ht x (List.mem_cons_self _ _))]

/-- `-t 5` is refused: the planner prints its usage line, which offers `-t`, and exits. -/
example :
    (parseOptions ["-t", "5"]).help = true ∧ (parseOptions ["-t", "5"]).variationFromAvg = 10 := by
  decide

end KosmosFs.RebalancePlanner
