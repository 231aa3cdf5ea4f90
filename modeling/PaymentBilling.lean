import PaymentBilling.Transact.Rely
import PaymentBilling.Relational.Laws
import PaymentBilling.Js
import PaymentBilling.Store.Tables
import PaymentBilling.Store.Statement
import PaymentBilling.Services.BillingConfig
import PaymentBilling.Services.Credits
import PaymentBilling.Services.Disputes
import PaymentBilling.Services.Refunds
import PaymentBilling.Services.Subscriptions
import PaymentBilling.Webhooks.AuthorizeNet
import PaymentBilling.Webhooks.Solana
import PaymentBilling.Transact.Scope
import PaymentBilling.Transact.Solo
import PaymentBilling.Store.Effects
import PaymentBilling.Transact.Replay
import PaymentBilling.Spec.Credits
import PaymentBilling.Spec.CreditBooks
import PaymentBilling.Safety.CreditBalance
import PaymentBilling.Safety.CreditKeys
import PaymentBilling.Bookkeeping
import PaymentBilling.Spec.Postings
import PaymentBilling.Spec.Ledger
import PaymentBilling.Spec.OffLedger
import PaymentBilling.Spec.LedgerBooks
import PaymentBilling.Safety.LedgerBooks
import PaymentBilling.Spec.Refunds
import PaymentBilling.Safety.CreditRefund
import PaymentBilling.Spec.Transfer
import PaymentBilling.Safety.PaymentRefund
import PaymentBilling.Transact.Checked
import PaymentBilling.Safety.RefundStatus
import PaymentBilling.Safety.DisputeStatus
import PaymentBilling.Spec.Accounts
import PaymentBilling.Spec.Chargebacks
import PaymentBilling.Spec.DisputeBooks
import PaymentBilling.Safety.DisputeBooks
import PaymentBilling.Transact.Atomic
import PaymentBilling.Store.Progress
import PaymentBilling.Transact.Once
import PaymentBilling.Spec.Deliveries
import PaymentBilling.Safety.Deliveries
import PaymentBilling.Spec.Handlers
import PaymentBilling.Spec.Reversals
import PaymentBilling.Safety.Reversals
import PaymentBilling.Spec.CreditOutcomes
import PaymentBilling.Safety.DisputeCredits
import PaymentBilling.Safety.CreditLegs
import PaymentBilling.Spec.Blame
import PaymentBilling.Safety.Skips
import PaymentBilling.Spec.ChargeOutcomes
import PaymentBilling.Safety.CreditsAndLedger
import PaymentBilling.Safety.GrantedCredits
import PaymentBilling.Safety.RefundPaths
import PaymentBilling.Safety.LedgerKeys
import PaymentBilling.Safety.RefundedValue
import PaymentBilling.Transact.Sure
import PaymentBilling.Spec.Healthy
import PaymentBilling.Safety.DepthGate
import PaymentBilling.Safety.ChargeRecords
import PaymentBilling.Spec.LedgerProgress
import PaymentBilling.Safety.LedgerAcceptance
import PaymentBilling.Spec.TransferProgress
import PaymentBilling.Safety.RefundCompletion
import PaymentBilling.Safety.Purchases
import PaymentBilling.Spec.Increments
import PaymentBilling.Safety.LedgerRange
import PaymentBilling.Spec.Ownership
import PaymentBilling.Spec.Personal
import PaymentBilling.Spec.Linked
import PaymentBilling.Safety.Isolation
import PaymentBilling.Safety.Signatures
import PaymentBilling.Gateways.AuthorizeNet
import PaymentBilling.Gateways.Solana
import PaymentBilling.Replies
import PaymentBilling.Safety.GatewayRefunds
import PaymentBilling.Spec.Subscriptions
import PaymentBilling.Safety.SubscriptionAccess
import PaymentBilling.Safety.SubscriptionState
import PaymentBilling.Safety.PendingCancellation
import PaymentBilling.Safety.DisputeEvidence
import PaymentBilling.Safety.ResetUser
import PaymentBilling.Transact.Authors
import PaymentBilling.Spec.Keyed
import PaymentBilling.Safety.OperationKeys
import PaymentBilling.Safety.DisputeFee
import PaymentBilling.Spec.CreditProgress
import PaymentBilling.Safety.OutcomeAtomicity
import PaymentBilling.Spec.ChargebackProgress
import PaymentBilling.Safety.WebhookAtomicity
import PaymentBilling.Relational.Pages
import PaymentBilling.Transact.Journal
import PaymentBilling.Spec.Journal
import PaymentBilling.Spec.Commits
import PaymentBilling.Safety.RequestLifecycle
import PaymentBilling.Spec.Sources
import PaymentBilling.Safety.LedgerTrail
import PaymentBilling.Safety.CreditTrail
import PaymentBilling.Safety.RefundTrail
import PaymentBilling.Safety.DisputeTrail
import PaymentBilling.Services.Reads
import PaymentBilling.Safety.Statements
import PaymentBilling.Safety.BalanceSheet
