/-
  Settings — what a run goes by: the command line over the configuration over the defaults.

  For the source of the catalog, a file beats a URL given in the same place, and anything given on
  the command line beats the configuration.
-/
import ReleaseMatrix.Catalog
import ReleaseMatrix.Config
import ReleaseMatrix.Matrix

namespace ReleaseMatrix

/-- Where the catalog comes from. -/
inductive CatalogSource where
  | url (url : String)
  | file (path : String)
deriving DecidableEq, Repr

/-- What was given on the command line; `none` is not given. -/
structure Overrides where
  includeFuture : Option Bool
  includeUnsupported : Option Bool
  policy : Option SupportPolicy
  catalogUrl : Option String
  catalogFile : Option String
deriving DecidableEq, Repr

/-- What a run goes by. -/
structure Settings where
  filters : Filters
  catalog : CatalogSource
deriving DecidableEq, Repr

namespace Settings

/-- The source that a file or a URL names, if either is given. -/
def source? (file url : Option String) : Option CatalogSource :=
  (file.map .file).or (url.map .url)

/-- **Resolution** of the three layers. -/
def resolve (o : Overrides) (config? : Option Config) : Settings :=
  let c := config?.getD .empty
  { filters :=
      { includeFuture := (o.includeFuture.or c.includeFuture).getD Filters.default.includeFuture
        includeUnsupported :=
          (o.includeUnsupported.or c.includeUnsupported).getD Filters.default.includeUnsupported
        policy := (o.policy.or c.policy).getD Filters.default.policy }
    catalog :=
      ((source? o.catalogFile o.catalogUrl).or (source? c.catalogFile c.catalogUrl)).getD
        (.url Catalog.defaultUrl) }

end Settings
end ReleaseMatrix
