import CostlyCalls.Rule.Call
import CostlyCalls.Rule.Declaration

/-!
# The built-in rules

The declaration rules and the call rules that every run starts from. Their numbers are the contract
with suppression files and are never given to another rule.
-/

set_option autoImplicit false

namespace CostlyCalls.Catalogue

def arrayProperty : DeclarationRule where
  id := ⟨1⟩
  name := "array-property"
  description := "Property exposes an array; callers can mutate its elements"
  declaration := .property
  message := "The '\x7b0\x7d' property has an array type; expose an IReadOnlyList<T> instead"
  explanation := {
    why :=
      "An array handed out by a property can be written to by every caller. A\nread-only list"
        ++ " interface keeps indexing and Count without that exposure."
    bad := "public int[] Scores \x7b get; \x7d"
    good := "public IReadOnlyList<int> Scores \x7b get; \x7d"
    suggestion := "Expose an IReadOnlyList<T>" }

def arrayField : DeclarationRule where
  id := ⟨2⟩
  name := "array-field"
  description := "Field holds an array; prefer a read-only list"
  declaration := .field
  message := "The '\x7b0\x7d' field has an array type; store an IReadOnlyList<T> instead"
  explanation := {
    why := "Array fields are mutable element by element even when the field is readonly."
    bad := "private readonly string[] names;"
    good := "private readonly IReadOnlyList<string> names;"
    suggestion := "Store an IReadOnlyList<T>" }

def arrayReturn : DeclarationRule where
  id := ⟨3⟩
  name := "array-return"
  description := "Method returns an array instead of a read-only list"
  declaration := .methodReturn
  message := "The '\x7b0\x7d' method returns an array instead of an IReadOnlyList<T>"
  explanation := {
    why :=
      "Returning an array commits the method to allocating one and lets callers modify\nwhat"
        ++ " it returned."
    bad := "public Order[] OpenOrders() => orders.Where(IsOpen).ToArray();"
    good := "public IReadOnlyList<Order> OpenOrders() => orders.Where(IsOpen).ToList();"
    suggestion := "Return an IReadOnlyList<T>" }

def distinctOnSequence : CallRule where
  id := ⟨4⟩
  name := "distinct-on-sequence"
  description :=
    "Distinct() rebuilds a set on every call; keep the values in a set-based collection"
  operations := ["Distinct"]
  predicate := .has .iterable
  kinds := [.memberAccess]
  message :=
    "'\x7b0\x7d' calls Distinct(), which is O(n) on every call; store the values in a"
      ++ " HashSet<T> instead"
  explanation := {
    why :=
      "Distinct() walks the whole sequence and hashes every element each time it"
        ++ " is\nenumerated. A HashSet<T> keeps elements unique as they are added, with"
        ++ " O(1)\nadditions and lookups."
    bad := "var tags = post.Tags.Distinct().ToList();"
    good := "var tags = new HashSet<string>(post.Tags);"
    suggestion := "Keep the values in a HashSet<T>" }

def elementAtOnList : CallRule where
  id := ⟨5⟩
  name := "element-at-on-list"
  description := "ElementAt()/ElementAtOrDefault() on an indexed list; use the indexer"
  operations := ["ElementAt", "ElementAtOrDefault"]
  predicate := .has .indexed
  kinds := [.invocation]
  message :=
    "'\x7b0\x7d' is an IList calling ElementAt() or ElementAtOrDefault(); use the indexer"
      ++ " instead"
  explanation := {
    why :=
      "The facade has to type-test the receiver before it can use the indexer. Calling\nthe"
        ++ " indexer directly skips the dispatch and states the intent."
    bad := "var third = orders.ElementAt(2);"
    good := "var third = orders[2];"
    suggestion := "Use the indexer" }

def firstOnList : CallRule where
  id := ⟨6⟩
  name := "first-on-list"
  description := "First()/FirstOrDefault() on an indexed list; use the indexer"
  operations := ["First", "FirstOrDefault"]
  predicate := .has .indexed
  kinds := [.invocation]
  message := "'\x7b0\x7d' is an IList calling First() or FirstOrDefault(); use indexing instead"
  explanation := {
    why :=
      "An indexed list reaches its first element in constant time. The facade call adds\nan"
        ++ " interface dispatch and, for FirstOrDefault, hides the empty case."
    bad := "var head = orders.First();"
    good := "var head = orders[0];"
    suggestion := "Use orders[0] (check Count for the empty case)" }

def lastOnList : CallRule where
  id := ⟨7⟩
  name := "last-on-list"
  description := "Last()/LastOrDefault() on an indexed list; index the final element"
  operations := ["Last", "LastOrDefault"]
  predicate := .has .indexed
  kinds := [.invocation]
  message :=
    "'\x7b0\x7d' is an IList calling Last() or LastOrDefault(); use indexing with Count - 1"
      ++ " instead"
  explanation := {
    why :=
      "Indexing with Count - 1 is constant time on any indexed list. The facade call\nonly"
        ++ " avoids enumeration when its runtime type test succeeds."
    bad := "var tail = orders.Last();"
    good := "var tail = orders[orders.Count - 1];"
    suggestion := "Index with Count - 1" }

def longCountOnCollection : CallRule where
  id := ⟨8⟩
  name := "long-count-on-collection"
  description := "LongCount() on a collection that already knows its count"
  operations := ["LongCount"]
  predicate := .has .countable
  kinds := [.invocation]
  message := "'\x7b0\x7d' is an ICollection calling LongCount(); use the Count property instead"
  explanation := {
    why :=
      "LongCount() enumerates the whole sequence. A collection stores its count and\nreturns"
        ++ " it in constant time."
    bad := "long total = orders.LongCount();"
    good := "long total = orders.Count;"
    suggestion := "Use the Count property" }

def singleOnCollection : CallRule where
  id := ⟨9⟩
  name := "single-on-collection"
  description := "Single()/SingleOrDefault() on a collection; check Count instead"
  operations := ["Single", "SingleOrDefault"]
  predicate := .has .countable
  kinds := [.invocation]
  message :=
    "'\x7b0\x7d' is an ICollection calling Single() or SingleOrDefault(); it should use the"
      ++ " Count property instead"
  explanation := {
    why :=
      "Single() enumerates until it has proved there is exactly one element. A\ncollection can"
        ++ " answer that with its stored count."
    bad := "var only = orders.Single();"
    good := "if (orders.Count == 1) \x7b var only = orders[0]; \x7d"
    suggestion := "Check the Count property" }

def containsOnSequence : CallRule where
  id := ⟨10⟩
  name := "contains-on-sequence"
  description := "Contains() through the facade is a linear scan; use a set or dictionary"
  operations := ["Contains"]
  predicate := .has .iterable
  kinds := [.invocation]
  message :=
    "'\x7b0\x7d' is an IEnumerable calling Contains(), which is O(n); use a HashSet<T> or"
      ++ " Dictionary<TKey, TValue> for O(1) lookups"
  explanation := {
    why :=
      "The facade's Contains() compares every element until it finds a match."
        ++ " Hash-based\ncollections answer membership in constant time."
    bad := "if (allowedIds.Contains(id)) \x7b ... \x7d"
    good := "var allowed = new HashSet<int>(allowedIds);\nif (allowed.Contains(id)) \x7b ... \x7d"
    suggestion := "Use a HashSet<T> or Dictionary<TKey, TValue>" }

def countOnCollection : CallRule where
  id := ⟨11⟩
  name := "count-on-collection"
  description := "Count() on a collection that already knows its count"
  operations := ["Count"]
  predicate := .has .countable
  kinds := [.invocation]
  message := "'\x7b0\x7d' is an ICollection calling Count(); use the Count property instead"
  explanation := {
    why :=
      "Count() goes through an interface type test on every call. Arrays expose Length\nand"
        ++ " collections expose Count directly."
    bad := "int n = orders.Count();"
    good := "int n = orders.Count; // or values.Length for arrays"
    suggestion := "Use the Count or Length property" }

def toArrayOnNonArray : CallRule where
  id := ⟨1003⟩
  name := "to-array-on-non-array"
  description := "ToArray() on a sequence that is not an array copies every element"
  operations := ["ToArray"]
  predicate := .isNotArray
  kinds := [.invocation]
  message := "'\x7b0\x7d' is a non-array sequence calling ToArray(), which copies every element"
  explanation := {
    why :=
      "ToArray() allocates and fills a new array. When the result is only enumerated\nor read,"
        ++ " the source sequence can usually be used as it is."
    bad := "foreach (var o in orders.Where(IsOpen).ToArray()) \x7b ... \x7d"
    good := "foreach (var o in orders.Where(IsOpen)) \x7b ... \x7d"
    suggestion := "Enumerate the source directly" }

def toListOnNonList : CallRule where
  id := ⟨1004⟩
  name := "to-list-on-non-list"
  description := "ToList() on a sequence without indexed access copies every element"
  operations := ["ToList"]
  predicate := .lacks .indexed
  kinds := [.invocation]
  message := "'\x7b0\x7d' is a non-list sequence calling ToList(), which copies every element"
  explanation := {
    why :=
      "ToList() allocates a list and grows it while enumerating the source. Materialise\nonly"
        ++ " when the result is mutated or enumerated more than once."
    bad := "var open = orders.Where(IsOpen).ToList();\nreturn open.Any();"
    good := "return orders.Any(IsOpen);"
    suggestion := "Enumerate the source directly" }

def declarationRules : List DeclarationRule := [arrayProperty, arrayField, arrayReturn]

def callRules : List CallRule :=
  [distinctOnSequence, elementAtOnList, firstOnList, lastOnList, longCountOnCollection,
    singleOnCollection, containsOnSequence, countOnCollection, toArrayOnNonArray,
    toListOnNonList]

def rules : List Rule :=
  declarationRules.map DeclarationRule.toRule ++ callRules.map CallRule.toRule

def find? (id : RuleId) : Option Rule := rules.find? (fun rule => rule.id == id)

def named? (text : String) : Option Rule := (RuleId.parse? text).bind find?

def isNamed (text : String) : Bool := (named? text).isSome

end CostlyCalls.Catalogue
