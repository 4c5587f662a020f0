import FreightAuditor.Library.StableSort

/- A collation of texts under which different texts tie. -/

/-- A collation by which a soft hyphen is nothing. -/
def hyphenless (a b : String) : Ordering :=
  compare (a.toList.filter (· ≠ '\u00ad')) (b.toList.filter (· ≠ '\u00ad'))

instance : Std.TransCmp hyphenless := StableSort.transCmp_key fun a : String => a.toList.filter (· ≠ '\u00ad')
