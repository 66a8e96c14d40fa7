import DirectiveSchema.Request
import DirectiveSchema.Proofs.Verdict
import DirectiveSchema.Proofs.Chronicle
import DirectiveSchema.Proofs.Numerals
import DirectiveSchema.Proofs.RoundTrip
import DirectiveSchema.Proofs.VersionUpdate
import DirectiveSchema.Proofs.Resolution
import DirectiveSchema.Proofs.Hashing
import DirectiveSchema.Proofs.Coercion
import DirectiveSchema.Proofs.Nullability
import DirectiveSchema.Proofs.Casting
import DirectiveSchema.Proofs.Exchange
import DirectiveSchema.Proofs.Lookalike
import DirectiveSchema.Proofs.ArgumentMap
import DirectiveSchema.Proofs.Spelling
import DirectiveSchema.Proofs.Leniency
import DirectiveSchema.Proofs.Deferral
import DirectiveSchema.Proofs.Defaults
import DirectiveSchema.Proofs.Printing
import DirectiveSchema.Proofs.Configuration
import DirectiveSchema.Proofs.VersionFile
import DirectiveSchema.Proofs.Refusals
import DirectiveSchema.Proofs.Replicas
import DirectiveSchema.Proofs.Unwrapping
import DirectiveSchema.Proofs.TypeTexts
import DirectiveSchema.Proofs.Reading
