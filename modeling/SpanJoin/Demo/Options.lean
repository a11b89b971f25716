import SpanJoin.Join.Config

/-!
# Options of the demonstration

The command line takes the flags `--debug`, `--parallel` and `--show-plans`, of which the first two
have a short form, and the option `--unmatched` with a value, short `-u`. Short flags may be put
together after one dash, the last of them with its value. Each may be given once. `Options.parse`
has no answer for anything else.
-/

namespace SpanJoin.Demo

/-- The options that were given; an absent policy is not yet replaced by its default. -/
structure Options where
  debug : Bool := false
  parallel : Bool := false
  showPlans : Bool := false
  unmatched : Option Unmatched := none

namespace Options

/-- Sets the flag for debug messages, once. -/
def setDebug (o : Options) : Option Options :=
  if o.debug then none else some { o with debug := true }

/-- Sets the flag for parallel evaluation, once. -/
def setParallel (o : Options) : Option Options :=
  if o.parallel then none else some { o with parallel := true }

/-- Sets the flag for the display of plans, once. -/
def setShowPlans (o : Options) : Option Options :=
  if o.showPlans then none else some { o with showPlans := true }

/-- Sets the policy, once. -/
def setUnmatched (o : Options) (value : String) : Option Options :=
  match o.unmatched, Unmatched.parse value with
  | none, .ok policy => some { o with unmatched := some policy }
  | _, _ => none

/-- What a group of short flags leaves: the options, and whether the value of the last one is to
come. -/
structure Pending where
  options : Options
  awaitsValue : Bool

/-- The options after a group of short flags. What follows the flag for the policy is its value, an
equals sign before it left out. -/
def shortFlags : Options → List Char → Option Pending
  | o, [] => some ⟨o, false⟩
  | o, 'd' :: rest => (setDebug o).bind fun o => shortFlags o rest
  | o, 'p' :: rest => (setParallel o).bind fun o => shortFlags o rest
  | o, ['u'] => some ⟨o, true⟩
  | o, 'u' :: '=' :: value => (setUnmatched o (String.ofList value)).map fun o => ⟨o, false⟩
  | o, 'u' :: value => (setUnmatched o (String.ofList value)).map fun o => ⟨o, false⟩
  | _, _ => none

/-- The options after one argument that is not a value. -/
def argument (o : Options) (arg : List Char) : Option Pending :=
  let done (o : Options) : Pending := ⟨o, false⟩
  match arg with
  | '-' :: '-' :: rest =>
    let (name, value) := rest.span (· ≠ '=')
    match String.ofList name, value with
    | "debug", [] => (setDebug o).map done
    | "parallel", [] => (setParallel o).map done
    | "show-plans", [] => (setShowPlans o).map done
    | "unmatched", [] => some ⟨o, true⟩
    | "unmatched", _ :: value => (setUnmatched o (String.ofList value)).map done
    | _, _ => none
  | '-' :: c :: rest => shortFlags o (c :: rest)
  | _ => none

/-- The options after the arguments. A value must not begin with a dash, and nothing may follow two
dashes that stand alone. -/
def parseFrom : Pending → List String → Option Options
  | ⟨o, false⟩, [] => some o
  | ⟨_, true⟩, [] => none
  | ⟨o, true⟩, value :: rest =>
    if value.toList.head? = some '-' then none
    else (setUnmatched o value).bind fun o => parseFrom ⟨o, false⟩ rest
  | ⟨o, false⟩, arg :: rest =>
    if arg = "--" then if rest.isEmpty then some o else none
    else (argument o arg.toList).bind fun pending => parseFrom pending rest

/-- The options that the arguments give. -/
def parse (args : List String) : Option Options := parseFrom ⟨{}, false⟩ args

end Options

end SpanJoin.Demo
